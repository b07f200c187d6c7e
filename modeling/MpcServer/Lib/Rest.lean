import MpcServer.Lib.Machine

/-!
# Machines that come to rest

Some events are the machine's own, the others come from outside. Where each
own step lowers a measure, a machine left alone takes boundedly many of them,
and at the end of every such run none is enabled any more.
-/

namespace Machine

variable {σ ε ω : Type}

/-- A run of own events is one under the guard that admits those. -/
theorem run_of_own {step : Step σ ε ω} {own : ε → Prop} {es : List ε} {s t : σ} {os : List ω}
    (hown : ∀ e ∈ es, own e) (hexec : exec step s es = some (t, os)) :
    Run step (fun _ => own) s os t := by
  have hadmits : ∀ s, Admits step (fun _ => own) s es := by
    clear hexec
    induction es with
    | nil => exact fun _ => trivial
    | cons e es ih =>
        obtain ⟨hfirst, hrest⟩ := List.forall_mem_cons.mp hown
        exact fun s => ⟨hfirst, fun r _ => ih hrest r.1⟩
  exact .ofExec hexec (hadmits s)

/-- Left alone from here, the machine takes no step. -/
def AtRest (step : Step σ ε ω) (own : ε → Prop) (s : σ) : Prop :=
  ∀ e, own e → step s e = none

/-- Where `Inv` holds, an own step keeps it and lowers the measure. -/
structure Settles (step : Step σ ε ω) (own : ε → Prop) (Inv : σ → Prop) (measure : σ → Nat) :
    Prop where
  keeps : ∀ {s e t o}, Inv s → own e → step s e = some (t, o) → Inv t
  lowers : ∀ {s e t o}, Inv s → own e → step s e = some (t, o) → measure t < measure s

section
variable {step : Step σ ε ω} {own : ε → Prop} {Inv : σ → Prop} {measure : σ → Nat}
  (h : Settles step own Inv measure)
include h

/-- **The measure bounds every run of own steps.** -/
theorem Settles.length_le {es : List ε} {s t : σ} {os : List ω} (hs : Inv s)
    (hown : ∀ e ∈ es, own e) (hexec : exec step s es = some (t, os)) :
    es.length + measure t ≤ measure s := by
  induction es generalizing s os with
  | nil =>
      cases hexec
      exact Nat.le_of_eq (Nat.zero_add _)
  | cons e es ih =>
      simp only [exec] at hexec
      cases hstep : step s e with
      | none => simp [hstep] at hexec
      | some r =>
          simp only [hstep, Option.map_eq_some_iff] at hexec
          obtain ⟨⟨u, o⟩, hu, heq⟩ := hexec
          cases heq
          obtain ⟨hfirst, hrest⟩ := List.forall_mem_cons.mp hown
          have hlower := h.lowers hs hfirst hstep
          have hbound := ih (h.keeps hs hfirst hstep) hrest hu
          rw [List.length_cons]
          omega

/-- Left alone, the machine can come to rest. -/
theorem Settles.exists_rest {s : σ} (hs : Inv s) :
    ∃ es t os, (∀ e ∈ es, own e) ∧ exec step s es = some (t, os) ∧ AtRest step own t := by
  -- by induction on the measure: a state that is not at rest has a step to one below it
  induction hm : measure s using Nat.strongRecOn generalizing s with
  | ind m ih =>
      by_cases hrest : AtRest step own s
      · exact ⟨[], s, [], by simp, rfl, hrest⟩
      · simp only [AtRest, not_forall] at hrest
        obtain ⟨e, hown, hstep⟩ := hrest
        obtain ⟨⟨u, o⟩, hu⟩ := Option.ne_none_iff_exists'.mp hstep
        have hlower := h.lowers hs hown hu
        obtain ⟨es, t, os, hes, hexec, ht⟩ := ih (measure u) (hm ▸ hlower) (h.keeps hs hown hu) rfl
        refine ⟨e :: es, t, o ++ os, List.forall_mem_cons.mpr ⟨hown, hes⟩, ?_, ht⟩
        simp only [exec, hu, hexec, Option.map_some]

end

end Machine

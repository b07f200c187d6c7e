import Mathlib.Data.List.Basic

/-!
# Machines with output, and their runs

A machine takes events one at a time. An event that is not enabled has no
step; an enabled one gives the next state and what the outside sees of the
step. A run carries the outputs of all its steps in order, so a statement
about a whole history speaks of one list and one state, and no history
variable has to be planted in the state.

`guard` restricts a run to the steps a theorem is about: a result about
every run uses `anyStep`, a result about the runs that avoid some event
names that event in its guard.
-/

namespace Machine

/-- One step: from a state and an event, the next state and the step's
output, or `none` when the event is not enabled. -/
abbrev Step (σ ε ω : Type) := σ → ε → Option (σ × List ω)

/-- The guard that admits every step. -/
def anyStep {σ ε : Type} : σ → ε → Prop := fun _ _ => True

/-- `Run step guard s₀ os s`: guarded steps lead from `s₀` to `s` and put
out `os`. -/
inductive Run {σ ε ω : Type} (step : Step σ ε ω) (guard : σ → ε → Prop) (s₀ : σ) :
    List ω → σ → Prop
  | start : Run step guard s₀ [] s₀
  | next {os s e t o} : Run step guard s₀ os s → guard s e →
      step s e = some (t, o) → Run step guard s₀ (os ++ o) t

variable {σ ε ω : Type} {step : Step σ ε ω} {guard : σ → ε → Prop} {s₀ s : σ}
  {os : List ω}

/-- **The invariant rule.** What holds at the start and is kept by every
guarded step of a run holds wherever the run gets. -/
theorem Run.invariant (hrun : Run step guard s₀ os s) (Inv : List ω → σ → Prop)
    (hinit : Inv [] s₀)
    (hstep : ∀ {os s e t o}, Run step guard s₀ os s → Inv os s → guard s e →
      step s e = some (t, o) → Inv (os ++ o) t) : Inv os s := by
  induction hrun with
  | start => exact hinit
  | next hr hg hs ih => exact hstep hr ih hg hs

/-- A run under a guard is a run under any weaker one. -/
theorem Run.weaken {guard' : σ → ε → Prop} (hrun : Run step guard s₀ os s)
    (h : ∀ s e, guard s e → guard' s e) : Run step guard' s₀ os s := by
  induction hrun with
  | start => exact .start
  | next _ hg hs ih => exact ih.next (h _ _ hg) hs

theorem Run.append {os' : List ω} {t : σ} (h : Run step guard s₀ os s)
    (h' : Run step guard s os' t) : Run step guard s₀ (os ++ os') t := by
  induction h' with
  | start => simpa using h
  | next _ hg hs ih => simpa [List.append_assoc] using ih.next hg hs

/-- What a run put out, one of its steps put out: the run up to there, the
step, and the run from there. -/
theorem Run.step_of_mem (hrun : Run step guard s₀ os s) {x : ω} (hx : x ∈ os) :
    ∃ os₁ s₁ e t o os₂, Run step guard s₀ os₁ s₁ ∧ guard s₁ e ∧ step s₁ e = some (t, o) ∧ x ∈ o ∧
      Run step guard t os₂ s ∧ os = os₁ ++ (o ++ os₂) := by
  induction hrun with
  | start => cases hx
  | next hr hg hs ih =>
      rcases List.mem_append.mp hx with hx | hx
      · obtain ⟨os₁, s₁, e, t, o, os₂, hr₁, hg₁, hs₁, ho, hr₂, rfl⟩ := ih hx
        exact ⟨os₁, s₁, e, t, o, _, hr₁, hg₁, hs₁, ho, hr₂.next hg hs, by simp⟩
      · exact ⟨_, _, _, _, _, [], hr, hg, hs, hx, .start, by simp⟩

/-! ## Runs computed from a list of events -/

/-- Feed a list of events, collecting the output. -/
def exec (step : Step σ ε ω) : σ → List ε → Option (σ × List ω)
  | s, [] => some (s, [])
  | s, e :: es =>
      match step s e with
      | none => none
      | some (t, o) => (exec step t es).map fun r => (r.1, o ++ r.2)

theorem exec_append (es es' : List ε) (s : σ) :
    exec step s (es ++ es') =
      (exec step s es).bind fun r => (exec step r.1 es').map fun r' => (r'.1, r.2 ++ r'.2) := by
  induction es generalizing s with
  | nil => simp [exec]
  | cons e es ih =>
      simp only [List.cons_append, exec]
      cases step s e with
      | none => rfl
      | some r =>
          simp only [ih, Option.map_bind, Option.bind_map]
          cases exec step r.1 es with
          | none => rfl
          | some u => simp [Function.comp_def, List.append_assoc]

/-- An event that leaves its state as it is can be left out of a run: the run ends in the
same state and puts out the rest. -/
theorem exec_erase {es₁ es₂ : List ε} {e : ε} {s t u : σ} {os os₁ o : List ω}
    (h : exec step s (es₁ ++ e :: es₂) = some (t, os)) (h₁ : exec step s es₁ = some (u, os₁))
    (he : step u e = some (u, o)) :
    ∃ os₂, os = os₁ ++ (o ++ os₂) ∧ exec step s (es₁ ++ es₂) = some (t, os₁ ++ os₂) := by
  rw [exec_append, h₁, Option.bind_some] at h ⊢
  simp only [exec, he, Option.map_map, Option.map_eq_some_iff] at h
  obtain ⟨⟨v, os₂⟩, hrest, heq⟩ := h
  cases heq
  exact ⟨os₂, rfl, by rw [hrest]; rfl⟩

/-- Every event of the list meets the guard where it is fed. -/
def Admits (step : Step σ ε ω) (guard : σ → ε → Prop) : σ → List ε → Prop
  | _, [] => True
  | s, e :: es => guard s e ∧ ∀ r, step s e = some r → Admits step guard r.1 es

theorem admits_anyStep (es : List ε) (s : σ) : Admits step anyStep s es := by
  induction es generalizing s with
  | nil => trivial
  | cons e es ih => exact ⟨trivial, fun _ _ => ih _⟩

theorem Admits.cons {e : ε} {es : List ε} {r : σ × List ω} (hg : guard s e)
    (hs : step s e = some r) (h : Admits step guard r.1 es) : Admits step guard s (e :: es) :=
  ⟨hg, fun _ hr => by cases hs.symm.trans hr; exact h⟩

theorem Run.ofExec {es : List ε} {t : σ} (h : exec step s es = some (t, os))
    (hg : Admits step guard s es) : Run step guard s os t := by
  induction es generalizing s os with
  | nil =>
      simp only [exec, Option.some.injEq, Prod.mk.injEq] at h
      obtain ⟨rfl, rfl⟩ := h
      exact .start
  | cons e es ih =>
      simp only [exec] at h
      cases hs : step s e with
      | none => simp [hs] at h
      | some r =>
          obtain ⟨u, o⟩ := r
          simp only [hs, Option.map_eq_some_iff] at h
          obtain ⟨⟨v, os'⟩, hv, he⟩ := h
          cases he
          have hfirst : Run step guard s o u := by
            simpa using Run.start.next hg.1 hs
          exact hfirst.append (ih hv (hg.2 _ hs))

/-- A computed run whose end passes a test. -/
theorem Run.ofTest (step : Step σ ε ω) (guard : σ → ε → Prop) (s : σ) (es : List ε)
    (p : σ × List ω → Bool) (h : (exec step s es).any p = true) (hg : Admits step guard s es) :
    ∃ os t, Run step guard s os t ∧ p (t, os) = true := by
  cases hr : exec step s es with
  | none => simp [hr] at h
  | some r => exact ⟨r.2, r.1, .ofExec hr hg, by simpa [hr] using h⟩

/-- The machine that stops short of a step its guard does not admit. -/
def guarded (step : Step σ ε ω) (guard : σ → ε → Prop) [∀ s e, Decidable (guard s e)] :
    Step σ ε ω :=
  fun s e => if guard s e then step s e else none

theorem Run.of_guarded [∀ s e, Decidable (guard s e)]
    (hrun : Run (guarded step guard) anyStep s₀ os s) : Run step guard s₀ os s := by
  induction hrun with
  | start => exact .start
  | @next _ s e _ _ _ _ hs ih =>
      by_cases hg : guard s e
      · exact ih.next hg (by simpa [guarded, hg] using hs)
      · simp [guarded, hg] at hs

/-- A list of events that is fed under a guard is fed without it, and admitted. -/
theorem exec_of_guarded [∀ s e, Decidable (guard s e)] {es : List ε} {s t : σ} {os : List ω}
    (h : exec (guarded step guard) s es = some (t, os)) :
    exec step s es = some (t, os) ∧ Admits step guard s es := by
  induction es generalizing s t os with
  | nil => exact ⟨h, trivial⟩
  | cons e es ih =>
      by_cases hg : guard s e
      · simp only [exec, guarded, if_pos hg] at h ⊢
        cases hs : step s e with
        | none => simp [hs] at h
        | some r =>
            simp only [hs, Option.map_eq_some_iff] at h
            obtain ⟨⟨v, os'⟩, hv, heq⟩ := h
            obtain ⟨hv, hadmits⟩ := ih hv
            cases heq
            exact ⟨by simp [hv], .cons hg hs hadmits⟩
      · simp [exec, guarded, hg] at h

/-- A run under a guard that is checked on the way. -/
theorem Run.ofGuardedTest (step : Step σ ε ω) (guard : σ → ε → Prop)
    [∀ s e, Decidable (guard s e)] (s : σ) (es : List ε) (p : σ × List ω → Bool)
    (h : (exec (guarded step guard) s es).any p = true) :
    ∃ os t, Run step guard s os t ∧ p (t, os) = true := by
  obtain ⟨os, t, hrun, hp⟩ := Run.ofTest _ _ s es p h (admits_anyStep es s)
  exact ⟨os, t, hrun.of_guarded, hp⟩

/-! ## Outputs in their order -/

/-- `P` holds of every output, given those that came before it. -/
def Throughout (P : List ω → ω → Prop) (os : List ω) : Prop :=
  ∀ os₁ x os₂, os = os₁ ++ x :: os₂ → P os₁ x

theorem Throughout.nil (P : List ω → ω → Prop) : Throughout P [] := by
  intro os₁ x os₂ h
  simp at h

theorem Throughout.append {P : List ω → ω → Prop} {os o : List ω} (h : Throughout P os)
    (ho : ∀ o₁ x o₂, o = o₁ ++ x :: o₂ → P (os ++ o₁) x) : Throughout P (os ++ o) := by
  intro os₁ x os₂ heq
  rcases List.append_eq_append_iff.mp heq with ⟨o₁, rfl, ho₁⟩ | ⟨rest, hrest, htail⟩
  · exact ho o₁ x os₂ ho₁
  · cases rest with
    | nil =>
        obtain rfl : os = os₁ := by simpa using hrest
        simpa using ho [] x os₂ htail.symm
    | cons y rest =>
        obtain ⟨rfl, rfl⟩ := List.cons.inj htail
        exact h os₁ x rest hrest

theorem Throughout.append_singleton {P : List ω → ω → Prop} {os : List ω} {x : ω}
    (h : Throughout P os) (hx : P os x) : Throughout P (os ++ [x]) := by
  refine h.append fun o₁ y o₂ ho => ?_
  cases o₁ with
  | nil =>
      cases ho
      simpa using hx
  | cons z o₁ => simp at ho

/-! ## Projecting a run onto a component -/

section
variable {σ' ε' ω' : Type} {step' : Step σ' ε' ω'} {guard' : σ' → ε' → Prop}

/-- A component's part of one step of the whole: the component takes a step
of its own with the output it is seen to have, or it stands still unseen. -/
def Projects (step' : Step σ' ε' ω') (guard' : σ' → ε' → Prop) (proj : σ → σ')
    (view : ω → Option ω') (s t : σ) (o : List ω) : Prop :=
  (proj t = proj s ∧ o.filterMap view = []) ∨
    ∃ e', guard' (proj s) e' ∧ step' (proj s) e' = some (proj t, o.filterMap view)

/-- A run of the whole is a run of the component. -/
theorem Run.project {proj : σ → σ'} {view : ω → Option ω'}
    (hrun : Run step guard s₀ os s)
    (h : ∀ {os s e t o}, Run step guard s₀ os s → guard s e → step s e = some (t, o) →
      Projects step' guard' proj view s t o) :
    Run step' guard' (proj s₀) (os.filterMap view) (proj s) := by
  induction hrun with
  | start => exact .start
  | next hr hg hs ih =>
      rw [List.filterMap_append]
      rcases h hr hg hs with ⟨hp, ho⟩ | ⟨e', hg', hs'⟩
      · rw [hp, ho, List.append_nil]
        exact ih
      · exact ih.next hg' hs'

end

/-! ## Notes on the side

What the outside does not see of a step, and a statement is to speak of, is
noted behind its output. -/

section
variable {ν : Type} {see : σ → ε → List ν}

/-- The machine with notes behind its output. -/
def noting (step : Step σ ε ω) (see : σ → ε → List ν) : Step σ ε (ω ⊕ ν) := fun s e =>
  (step s e).map fun r => (r.1, r.2.map .inl ++ (see s e).map .inr)

/-- The output without the notes. -/
def seen (os : List (ω ⊕ ν)) : List ω := os.filterMap Sum.getLeft?

/-- The notes alone. -/
def notes (os : List (ω ⊕ ν)) : List ν := os.filterMap Sum.getRight?

theorem seen_append (os o : List (ω ⊕ ν)) : seen (os ++ o) = seen os ++ seen o :=
  List.filterMap_append

theorem notes_append (os o : List (ω ⊕ ν)) : notes (os ++ o) = notes os ++ notes o :=
  List.filterMap_append

theorem seen_noting (o : List ω) (l : List ν) :
    seen (o.map Sum.inl ++ l.map Sum.inr) = o := by
  simp [seen, List.filterMap_map, Function.comp_def]

theorem notes_noting (o : List ω) (l : List ν) :
    notes (o.map Sum.inl ++ l.map Sum.inr) = l := by
  simp [notes, List.filterMap_map, Function.comp_def]

theorem noting_eq_some {s t : σ} {e : ε} {o : List (ω ⊕ ν)}
    (h : noting step see s e = some (t, o)) :
    step s e = some (t, seen o) ∧ notes o = see s e := by
  obtain ⟨⟨u, o'⟩, hu, heq⟩ := Option.map_eq_some_iff.mp h
  cases heq
  rw [seen_noting, notes_noting]
  exact ⟨hu, rfl⟩

theorem noting_cases {s t : σ} {e : ε} {o : List (ω ⊕ ν)}
    (h : noting step see s e = some (t, o)) :
    ∃ o', step s e = some (t, o') ∧ o = o'.map .inl ++ (see s e).map .inr := by
  obtain ⟨⟨u, o'⟩, hu, heq⟩ := Option.map_eq_some_iff.mp h
  cases heq
  exact ⟨o', hu, rfl⟩

/-- A run with notes is a run. -/
theorem Run.of_noting {os : List (ω ⊕ ν)} (hrun : Run (noting step see) guard s₀ os s) :
    Run step guard s₀ (seen os) s := by
  induction hrun with
  | start => exact .start
  | next _ hg hs ih =>
      rw [seen_append]
      exact ih.next hg (noting_eq_some hs).1

end

end Machine

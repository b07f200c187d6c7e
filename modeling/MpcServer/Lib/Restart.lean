import MpcServer.Lib.Machine

/-!
# Machines that start again

A machine can stop after any of its steps. It starts again from what it has
kept of its state, and a run goes on across any number of such starts.
-/

namespace Machine

variable {σ ε ω : Type}

/-- The machine with its stops: `none` is a stop and the start that follows it. -/
def restarting (step : Step σ ε ω) (again : σ → σ) : Step σ (Option ε) ω
  | s, some e => step s e
  | s, none => some (again s, [])

/-- A stop is always possible. -/
def untilStop (guard : σ → ε → Prop) : σ → Option ε → Prop
  | s, some e => guard s e
  | _, none => True

instance {guard : σ → ε → Prop} [∀ s e, Decidable (guard s e)] (s : σ) (e : Option ε) :
    Decidable (untilStop guard s e) :=
  match e with
  | some e => inferInstanceAs (Decidable (guard s e))
  | none => .isTrue trivial

variable {step : Step σ ε ω} {again : σ → σ} {guard : σ → ε → Prop} {s₀ s : σ} {os : List ω}

/-- **The invariant rule with stops.** What holds at the start, is kept by every
guarded step and is found again after a stop holds wherever the run gets. -/
theorem Run.across (hrun : Run (restarting step again) (untilStop guard) s₀ os s)
    (Inv : List ω → σ → Prop) (hinit : Inv [] s₀)
    (hagain : ∀ {os s}, Inv os s → Inv os (again s))
    (hstep : ∀ {os s e t o}, Inv os s → guard s e → step s e = some (t, o) → Inv (os ++ o) t) :
    Inv os s := by
  induction hrun with
  | start => exact hinit
  | @next os s e t o _ hg hs ih =>
      cases e with
      | some e => exact hstep ih hg hs
      | none =>
          cases hs
          rw [List.append_nil]
          exact hagain ih

end Machine

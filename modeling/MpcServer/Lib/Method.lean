import Mathlib.Algebra.GroupWithZero.Nat
import Mathlib.Logic.Basic

/-!
# Rust methods

A `&mut self` method as a function from `self`: it ends with a value, with
an `Err` on its way out through `?`, or in a panic; it leaves the new
`self`; and it lists the effects it had on the outside, in order. A panic or
an `Err` keeps what was done before it.

The `run_*` lemmas are the whole interface of the proofs: they turn a method
body into nested matches on what its calls return.
-/

namespace Rust

/-- The panics a method body can run into. -/
inductive Panic
  | sliceIndex
  | unwrapNone
  | arithmeticOverflow
  deriving DecidableEq, Repr

/-- Why a body stopped before its end. -/
inductive Stop (ε : Type)
  | err (e : ε)
  | panic (p : Panic)
  deriving DecidableEq, Repr

/-- The body ended in a panic. -/
def isPanic {ε α : Type} : Except (Stop ε) α → Bool
  | .error (.panic _) => true
  | _ => false

/-- `Option::context` and `Result::map_err` at a text. -/
def context {α : Type} (x : Option α) (text : String) : Except String α :=
  match x with
  | some a => .ok a
  | none => .error text

/-- `Result::context`: the outer text stands in front. -/
def withContext {α : Type} (x : Except String α) (text : String) : Except String α :=
  match x with
  | .ok a => .ok a
  | .error _ => .error text

@[simp] theorem context_some {α : Type} (a : α) (text : String) :
    context (some a) text = .ok a := rfl

@[simp] theorem context_none {α : Type} (text : String) :
    context (none : Option α) text = .error text := rfl

@[simp] theorem withContext_ok {α : Type} (a : α) (text : String) :
    withContext (.ok a) text = .ok a := rfl

@[simp] theorem withContext_error {α : Type} (e text : String) :
    withContext (.error e : Except String α) text = .error text := rfl

/-- A `?` chain that ended well went well at every step. -/
theorem bind_eq_ok {ε α β : Type} {x : Except ε α} {f : α → Except ε β} {b : β} :
    (x >>= f) = .ok b ↔ ∃ a, x = .ok a ∧ f a = .ok b := by
  cases x <;> simp [bind, Except.bind]

theorem context_eq_ok {α : Type} {x : Option α} {text : String} {a : α} :
    context x text = .ok a ↔ x = some a := by
  cases x <;> simp

theorem withContext_eq_ok {α : Type} {x : Except String α} {text : String} {a : α} :
    withContext x text = .ok a ↔ x = .ok a := by
  cases x <;> simp

/-- `Option::unwrap` and `Result::unwrap`. -/
def unwrap {α : Type} (x : Option α) : Except Panic α :=
  match x with
  | some a => .ok a
  | none => .error .unwrapNone

/-- `x + y` on `u16`: it panics when the build checks for overflow and wraps
around when it does not. -/
def addU16 (checks : Bool) (x y : UInt16) : Except Panic UInt16 :=
  if checks ∧ 2 ^ 16 ≤ x.toNat + y.toNat then .error .arithmeticOverflow else .ok (x + y)

theorem toNat_addU16 {checks : Bool} {x y z : UInt16} (h : addU16 checks x y = .ok z)
    (hlt : x.toNat + y.toNat < 2 ^ 16) : z.toNat = x.toNat + y.toNat := by
  unfold addU16 at h
  split at h
  · cases h
  · cases h
    rw [UInt16.toNat_add, Nat.mod_eq_of_lt hlt]

theorem addU16_of_lt {checks : Bool} {x y : UInt16} (hlt : x.toNat + y.toNat < 2 ^ 16) :
    addU16 checks x y = .ok (x + y) :=
  if_neg fun hover => absurd hover.2 (Nat.not_le.mpr hlt)

/-- A method on a state `σ` that sends `ω` and may stop early. -/
structure Method (σ ω ε α : Type) where
  run : σ → Except (Stop ε) α × σ × List ω

namespace Method

variable {σ ω ε δ α β : Type}

instance : Monad (Method σ ω ε) where
  pure a := ⟨fun s => (.ok a, s, [])⟩
  bind x f := ⟨fun s =>
    match x.run s with
    | (.ok a, s', o) => ((f a).run s' |>.1, (f a).run s' |>.2.1, o ++ ((f a).run s').2.2)
    | (.error e, s', o) => (.error e, s', o)⟩

/-- The state as it is. -/
def self : Method σ ω ε σ := ⟨fun s => (.ok s, s, [])⟩

/-- Changes the state. -/
def modify (f : σ → σ) : Method σ ω ε Unit := ⟨fun s => (.ok (), f s, [])⟩

/-- One effect on the outside. -/
def emit (o : ω) : Method σ ω ε Unit := ⟨fun s => (.ok (), s, [o])⟩

/-- Several effects, in order. -/
def emitAll (os : List ω) : Method σ ω ε Unit := ⟨fun s => (.ok (), s, os)⟩

/-- The `?` operator. -/
def question (x : Except ε α) : Method σ ω ε α := ⟨fun s =>
  match x with
  | .ok a => (.ok a, s, [])
  | .error e => (.error (.err e), s, [])⟩

/-- A call that panics instead of returning. -/
def orPanic (x : Except Panic α) : Method σ ω ε α := ⟨fun s =>
  match x with
  | .ok a => (.ok a, s, [])
  | .error p => (.error (.panic p), s, [])⟩

/-- A call that may do either. -/
def lift (x : Except (Stop ε) α) : Method σ ω ε α := ⟨fun s => (x, s, [])⟩

/-- A call whose `Result` the caller inspects; a panic goes through. -/
def attempt (x : Method σ ω ε α) : Method σ ω δ (Except ε α) := ⟨fun s =>
  match x.run s with
  | (.ok a, s', o) => (.ok (.ok a), s', o)
  | (.error (.err e), s', o) => (.ok (.error e), s', o)
  | (.error (.panic p), s', o) => (.error (.panic p), s', o)⟩

@[simp] theorem run_pure (a : α) (s : σ) :
    (pure a : Method σ ω ε α).run s = (.ok a, s, []) := rfl

theorem run_bind (x : Method σ ω ε α) (f : α → Method σ ω ε β) (s : σ) :
    (x >>= f).run s =
      match x.run s with
      | (.ok a, s', o) =>
          ((f a).run s' |>.1, (f a).run s' |>.2.1, o ++ ((f a).run s').2.2)
      | (.error e, s', o) => (.error e, s', o) := rfl

/-- A call that returns: the body goes on with its value. -/
theorem run_bind_ok {x : Method σ ω ε α} {s s' : σ} {a : α} {o : List ω}
    (h : x.run s = (.ok a, s', o)) (f : α → Method σ ω ε β) :
    (x >>= f).run s =
      ((f a).run s' |>.1, (f a).run s' |>.2.1, o ++ ((f a).run s').2.2) := by
  rw [run_bind, h]

/-- A call that stops: the body stops with it. -/
theorem run_bind_error {x : Method σ ω ε α} {s s' : σ} {e : Stop ε} {o : List ω}
    (h : x.run s = (.error e, s', o)) (f : α → Method σ ω ε β) :
    (x >>= f).run s = (.error e, s', o) := by
  rw [run_bind, h]

@[simp] theorem run_self (s : σ) : (self : Method σ ω ε σ).run s = (.ok s, s, []) := rfl

@[simp] theorem run_modify (f : σ → σ) (s : σ) :
    (modify f : Method σ ω ε Unit).run s = (.ok (), f s, []) := rfl

@[simp] theorem run_emit (o : ω) (s : σ) :
    (emit o : Method σ ω ε Unit).run s = (.ok (), s, [o]) := rfl

@[simp] theorem run_emitAll (os : List ω) (s : σ) :
    (emitAll os : Method σ ω ε Unit).run s = (.ok (), s, os) := rfl

@[simp] theorem run_question_ok (a : α) (s : σ) :
    (question (.ok a) : Method σ ω ε α).run s = (.ok a, s, []) := rfl

@[simp] theorem run_question_error (e : ε) (s : σ) :
    (question (.error e) : Method σ ω ε α).run s = (.error (.err e), s, []) := rfl

@[simp] theorem run_orPanic_ok (a : α) (s : σ) :
    (orPanic (.ok a) : Method σ ω ε α).run s = (.ok a, s, []) := rfl

@[simp] theorem run_orPanic_error (p : Panic) (s : σ) :
    (orPanic (.error p) : Method σ ω ε α).run s = (.error (.panic p), s, []) := rfl

theorem run_orPanic_of_ok {x : Except Panic α} {a : α} (h : x = .ok a) (s : σ) :
    (orPanic x : Method σ ω ε α).run s = (.ok a, s, []) := by
  rw [h, run_orPanic_ok]

theorem run_orPanic_of_error {x : Except Panic α} {p : Panic} (h : x = .error p) (s : σ) :
    (orPanic x : Method σ ω ε α).run s = (.error (.panic p), s, []) := by
  rw [h, run_orPanic_error]

@[simp] theorem run_lift (x : Except (Stop ε) α) (s : σ) :
    (lift x : Method σ ω ε α).run s = (x, s, []) := rfl

theorem run_attempt (x : Method σ ω ε α) (s : σ) :
    (attempt x : Method σ ω δ (Except ε α)).run s =
      match x.run s with
      | (.ok a, s', o) => (.ok (.ok a), s', o)
      | (.error (.err e), s', o) => (.ok (.error e), s', o)
      | (.error (.panic p), s', o) => (.error (.panic p), s', o) := rfl

/-! ## How a call ends

`Ends m s P`: the call of `m` on `s` ends in a way `P` tells of, by what it
returns, what it leaves and its effects. The rules peel a body statement by
statement; `P` gathers the effects on the way. -/

/-- The call from `s` ends so. -/
def Ends (m : Method σ ω ε α) (s : σ) (P : Except (Stop ε) α → σ → List ω → Prop) : Prop :=
  P (m.run s).1 (m.run s).2.1 (m.run s).2.2

theorem Ends.bind_ok {x : Method σ ω ε α} {f : α → Method σ ω ε β} {s s' : σ} {a : α}
    {o : List ω} {P : Except (Stop ε) β → σ → List ω → Prop} (h : x.run s = (.ok a, s', o))
    (hf : Ends (f a) s' fun r t o' => P r t (o ++ o')) : Ends (x >>= f) s P := by
  unfold Ends
  rw [run_bind_ok h]
  exact hf

theorem Ends.bind_error {x : Method σ ω ε α} {f : α → Method σ ω ε β} {s s' : σ}
    {e : Stop ε} {o : List ω} {P : Except (Stop ε) β → σ → List ω → Prop}
    (h : x.run s = (.error e, s', o)) (hp : P (.error e) s' o) : Ends (x >>= f) s P := by
  unfold Ends
  rw [run_bind_error h]
  exact hp

theorem Ends.of_run {m : Method σ ω ε α} {s s' : σ} {r : Except (Stop ε) α} {o : List ω}
    {P : Except (Stop ε) α → σ → List ω → Prop} (h : m.run s = (r, s', o)) (hp : P r s' o) :
    Ends m s P := by
  unfold Ends
  rw [h]
  exact hp

/-! ## What a method keeps

`Keeps P Q m`: from a `self` with `P` the body leaves a `self` with `P` and
has only effects in `Q`, however it ends. The rules follow the body. -/

/-- Every call keeps `P` of the state and sends only what `Q` holds of. -/
def Keeps (P : σ → Prop) (Q : ω → Prop) (m : Method σ ω ε α) : Prop :=
  ∀ s, P s → P (m.run s).2.1 ∧ ∀ o ∈ (m.run s).2.2, Q o

variable {P : σ → Prop} {Q : ω → Prop}

theorem keeps_pure (a : α) : Keeps P Q (pure a : Method σ ω ε α) :=
  fun _ hs => ⟨hs, by simp⟩

theorem keeps_bind {x : Method σ ω ε α} {f : α → Method σ ω ε β} (hx : Keeps P Q x)
    (hf : ∀ a, Keeps P Q (f a)) : Keeps P Q (x >>= f) := by
  intro s hs
  obtain ⟨hs', ho⟩ := hx s hs
  rw [run_bind]
  split
  · rename_i a s' o hrun
    rw [hrun] at hs' ho
    obtain ⟨ht, hos⟩ := hf a s' hs'
    refine ⟨ht, fun w hw => ?_⟩
    rcases List.mem_append.mp hw with hw | hw
    · exact ho w hw
    · exact hos w hw
  · rename_i hrun
    rw [hrun] at hs' ho
    exact ⟨hs', ho⟩

/-- Reading `self` tells the rest of the body that it has `P`. -/
theorem keeps_bind_self {f : σ → Method σ ω ε β} (hf : ∀ s, P s → Keeps P Q (f s)) :
    Keeps P Q (self >>= f) := by
  intro s hs
  simpa [run_bind] using hf s hs s hs

theorem keeps_modify {f : σ → σ} (hf : ∀ s, P s → P (f s)) :
    Keeps P Q (modify f : Method σ ω ε Unit) :=
  fun s hs => ⟨hf s hs, by simp⟩

theorem keeps_emit {o : ω} (ho : Q o) : Keeps P Q (emit o : Method σ ω ε Unit) :=
  fun _ hs => ⟨hs, by simpa using ho⟩

theorem keeps_emitAll {os : List ω} (hos : ∀ o ∈ os, Q o) :
    Keeps P Q (emitAll os : Method σ ω ε Unit) :=
  fun _ hs => ⟨hs, hos⟩

theorem keeps_question (x : Except ε α) : Keeps P Q (question x : Method σ ω ε α) := by
  intro s hs
  cases x <;> exact ⟨hs, by simp⟩

theorem keeps_orPanic (x : Except Panic α) : Keeps P Q (orPanic x : Method σ ω ε α) := by
  intro s hs
  cases x <;> exact ⟨hs, by simp⟩

theorem keeps_attempt {x : Method σ ω ε α} (hx : Keeps P Q x) :
    Keeps P Q (attempt x : Method σ ω δ (Except ε α)) := by
  intro s hs
  have h := hx s hs
  rw [run_attempt]
  split <;> rename_i hrun <;> rw [hrun] at h <;> exact h

theorem keeps_ite {p : Prop} [Decidable p] {x y : Method σ ω ε α} (hx : p → Keeps P Q x)
    (hy : ¬ p → Keeps P Q y) : Keeps P Q (if p then x else y) := by
  split
  · exact hx ‹_›
  · exact hy ‹_›

/-! ## What a method raises

`Raises E m`: an `Err` the body ends in has `E`, whatever `self` it starts from. -/

/-- Every error that is returned satisfies `E`. -/
def Raises (E : ε → Prop) (m : Method σ ω ε α) : Prop :=
  ∀ s e, (m.run s).1 = .error (.err e) → E e

section
variable {E : ε → Prop}

theorem raises_pure (a : α) : Raises E (pure a : Method σ ω ε α) := by
  rintro s e ⟨⟩

theorem raises_self : Raises E (self : Method σ ω ε σ) := by
  rintro s e ⟨⟩

theorem raises_modify (f : σ → σ) : Raises E (modify f : Method σ ω ε Unit) := by
  rintro s e ⟨⟩

theorem raises_emit (o : ω) : Raises E (emit o : Method σ ω ε Unit) := by
  rintro s e ⟨⟩

theorem raises_emitAll (os : List ω) : Raises E (emitAll os : Method σ ω ε Unit) := by
  rintro s e ⟨⟩

theorem raises_question {x : Except ε α} (hx : ∀ e, x = .error e → E e) :
    Raises E (question x : Method σ ω ε α) := by
  intro s e h
  cases x with
  | ok a => cases h
  | error e' =>
      cases h
      exact hx _ rfl

/-- An inspected call raises nothing. -/
theorem raises_attempt (x : Method σ ω δ α) :
    Raises E (attempt x : Method σ ω ε (Except δ α)) := by
  intro s e h
  rw [run_attempt] at h
  split at h <;> cases h

theorem raises_bind {x : Method σ ω ε α} {f : α → Method σ ω ε β} (hx : Raises E x)
    (hf : ∀ a, Raises E (f a)) : Raises E (x >>= f) := by
  intro s e h
  rw [run_bind] at h
  split at h
  · exact hf _ _ e h
  · rename_i hrun
    refine hx s e ?_
    rw [hrun]
    cases h
    rfl

theorem raises_ite {p : Prop} [Decidable p] {x y : Method σ ω ε α} (hx : p → Raises E x)
    (hy : ¬ p → Raises E y) : Raises E (if p then x else y) := by
  split
  · exact hx ‹_›
  · exact hy ‹_›

end

/-! ## What never panics

`Returns m`: a call of `m` ends with a value or an `Err`, whatever `self` it starts
from. -/

/-- No call panics. -/
def Returns (m : Method σ ω ε α) : Prop := ∀ s, isPanic (m.run s).1 = false

theorem returns_pure (a : α) : Returns (pure a : Method σ ω ε α) := fun _ => rfl

theorem returns_self : Returns (self : Method σ ω ε σ) := fun _ => rfl

theorem returns_modify (f : σ → σ) : Returns (modify f : Method σ ω ε Unit) := fun _ => rfl

theorem returns_emit (o : ω) : Returns (emit o : Method σ ω ε Unit) := fun _ => rfl

theorem returns_emitAll (os : List ω) : Returns (emitAll os : Method σ ω ε Unit) := fun _ => rfl

theorem returns_question (x : Except ε α) : Returns (question x : Method σ ω ε α) := by
  intro s
  cases x <;> rfl

theorem returns_attempt {x : Method σ ω ε α} (hx : Returns x) :
    Returns (attempt x : Method σ ω δ (Except ε α)) := by
  intro s
  have h := hx s
  rw [run_attempt]
  split
  · rfl
  · rfl
  · rename_i hrun
    rw [hrun] at h
    exact h

theorem returns_bind {x : Method σ ω ε α} {f : α → Method σ ω ε β} (hx : Returns x)
    (hf : ∀ a, Returns (f a)) : Returns (x >>= f) := by
  intro s
  have h := hx s
  rw [run_bind]
  split
  · exact hf _ _
  · rename_i stop _ _ hrun
    rw [hrun] at h
    cases stop with
    | err e => rfl
    | panic p => cases h

theorem returns_ite {p : Prop} [Decidable p] {x y : Method σ ω ε α} (hx : p → Returns x)
    (hy : ¬ p → Returns y) : Returns (if p then x else y) := by
  split
  · exact hx ‹_›
  · exact hy ‹_›

/-! ## What a line may be left out

A log line computes its texts and does nothing else. -/

/-- A line that is computed and thrown away. -/
def log (x : Except Panic String) : Method σ ω ε Unit := do
  let _ ← orPanic x
  pure ()

theorem log_eq_pure {x : Except Panic String} {text : String} (h : x = .ok text) :
    (log x : Method σ ω ε Unit) = pure () := by
  rw [h]
  rfl

theorem pure_bind (a : α) (f : α → Method σ ω ε β) : (pure a >>= f) = f a := rfl

theorem bind_pure_unit (x : Method σ ω ε Unit) : (x >>= fun _ => pure ()) = x := by
  have hrun : (x >>= fun _ => pure ()).run = x.run := by
    funext s
    rw [run_bind]
    rcases x.run s with ⟨_ | _, s', os⟩
    · rfl
    · simp
  cases x
  exact congrArg Method.mk hrun

/-! ## Where a method leads

`Follows R m`: every call of `m` leads from the old `self` to the new one along
`R`, which also sees the effects on the way. -/

/-- What is sent ties the state after the call to the one before it. -/
def Follows (R : σ → List ω → σ → Prop) (m : Method σ ω ε α) : Prop :=
  ∀ s, R s (m.run s).2.2 (m.run s).2.1

/-- Calls one after the other stay along `R`. -/
structure Composes (R : σ → List ω → σ → Prop) : Prop where
  refl : ∀ s, R s [] s
  trans : ∀ {s t u : σ} {os os' : List ω}, R s os t → R t os' u → R s (os ++ os') u

section
variable {R : σ → List ω → σ → Prop}

theorem follows_pure (hR : Composes R) (a : α) : Follows R (pure a : Method σ ω ε α) := hR.refl

theorem follows_self (hR : Composes R) : Follows R (self : Method σ ω ε σ) := hR.refl

theorem follows_modify {f : σ → σ} (hf : ∀ s, R s [] (f s)) :
    Follows R (modify f : Method σ ω ε Unit) := hf

theorem follows_orPanic (hR : Composes R) (x : Except Panic α) :
    Follows R (orPanic x : Method σ ω ε α) := by
  intro s
  cases x <;> exact hR.refl s

theorem follows_attempt {x : Method σ ω ε α} (hx : Follows R x) :
    Follows R (attempt x : Method σ ω δ (Except ε α)) := by
  intro s
  have h := hx s
  rw [run_attempt]
  split <;> rename_i hrun <;> rw [hrun] at h <;> exact h

theorem follows_bind (hR : Composes R) {x : Method σ ω ε α} {f : α → Method σ ω ε β}
    (hx : Follows R x) (hf : ∀ a, Follows R (f a)) : Follows R (x >>= f) := by
  intro s
  have h := hx s
  rw [run_bind]
  split
  · rename_i a s' o hrun
    rw [hrun] at h
    exact hR.trans h (hf a s')
  · rename_i hrun
    rw [hrun] at h
    exact h

theorem follows_ite {p : Prop} [Decidable p] {x y : Method σ ω ε α} (hx : p → Follows R x)
    (hy : ¬ p → Follows R y) : Follows R (if p then x else y) := by
  split
  · exact hx ‹_›
  · exact hy ‹_›

end

end Method

end Rust

import Mathlib.Data.List.Basic

/-!
# Sinks unfolded from a state

`futures::sink::unfold` makes a sink of a state and a closure. A send hands the state
over to the closure, and gets one back only with its `Ok`. Whoever goes on sending
whatever a send returned finds the state gone after the first `Err`.
-/

namespace Unfold

variable {σ μ ε : Type}

/-- `send` on the sink of this state: what it returns and the state it leaves, or nothing
where `start_send` finds no state and panics. -/
def send (f : σ → μ → Except ε σ) (state : Option σ) (item : μ) :
    Option (Except ε Unit × Option σ) :=
  state.map fun s => match f s item with
    | .ok s' => (.ok (), some s')
    | .error e => (.error e, none)

/-- One send after the other, whatever each returns. -/
def sendAll (f : σ → μ → Except ε σ) :
    Option σ → List μ → Option (List (Except ε Unit) × Option σ)
  | state, [] => some ([], state)
  | state, item :: items =>
      match send f state item with
      | none => none
      | some (r, state) => (sendAll f state items).map fun rs => (r :: rs.1, rs.2)

/-- From a state with `P`, the item alone decides whether the closure succeeds. -/
structure Decides (f : σ → μ → Except ε σ) (P : σ → Prop) (good : μ → Bool) : Prop where
  isOk : ∀ s item, P s → (f s item).isOk = good item
  keeps : ∀ s item s', P s → f s item = .ok s' → P s'

section
variable {f : σ → μ → Except ε σ} {P : σ → Prop} {good : μ → Bool} {s : σ} {item : μ}

theorem Decides.send_good (h : Decides f P good) (hs : P s) (hgood : good item = true) :
    ∃ s', P s' ∧ send f (some s) item = some (.ok (), some s') := by
  have hok := h.isOk s item hs
  cases hf : f s item with
  | ok s' => exact ⟨s', h.keeps s item s' hs hf, by simp [send, hf]⟩
  | error e =>
      rw [hf, hgood] at hok
      cases hok

theorem Decides.send_bad (h : Decides f P good) (hs : P s) (hbad : good item = false) :
    ∃ e, send f (some s) item = some (.error e, none) := by
  have hok := h.isOk s item hs
  cases hf : f s item with
  | ok s' =>
      rw [hf, hbad] at hok
      cases hok
  | error e => exact ⟨e, by simp [send, hf]⟩

/-- **No send panics exactly if all but the last succeed.** -/
theorem sendAll_isSome_iff (h : Decides f P good) (hs : P s) (items : List μ) :
    (sendAll f (some s) items).isSome = true ↔ ∀ item ∈ items.dropLast, good item = true := by
  induction items generalizing s with
  | nil => simp [sendAll]
  | cons x items ih =>
      cases hx : good x with
      | true =>
          obtain ⟨s', hs', hsend⟩ := h.send_good hs hx
          rw [sendAll, hsend, Option.isSome_map, ih hs']
          cases items with
          | nil => simp
          | cons y items => simp [hx]
      | false =>
          obtain ⟨e, hsend⟩ := h.send_bad hs hx
          rw [sendAll, hsend]
          cases items with
          | nil => simp [sendAll]
          | cons y items => simp [sendAll, send, hx]

/-- As long as none panics, a send returns `Ok` exactly if its own item is good. -/
theorem results_of_sendAll (h : Decides f P good) (hs : P s) {items : List μ}
    {rs : List (Except ε Unit)} {state : Option σ}
    (hall : sendAll f (some s) items = some (rs, state)) : rs.map Except.isOk = items.map good := by
  induction items generalizing s rs with
  | nil =>
      cases hall
      rfl
  | cons x items ih =>
      cases hx : good x with
      | true =>
          obtain ⟨s', hs', hsend⟩ := h.send_good hs hx
          rw [sendAll, hsend] at hall
          obtain ⟨⟨rest, end'⟩, hrest, heq⟩ := Option.map_eq_some_iff.mp hall
          cases heq
          rw [List.map_cons, List.map_cons, ih hs' hrest, hx]
          rfl
      | false =>
          obtain ⟨e, hsend⟩ := h.send_bad hs hx
          rw [sendAll, hsend] at hall
          cases items with
          | nil =>
              cases hall
              rw [List.map_singleton, List.map_singleton, hx]
              rfl
          | cons y items => cases hall

end

end Unfold

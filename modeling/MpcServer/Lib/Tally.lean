import Mathlib.Algebra.GroupWithZero.Nat
import Mathlib.Data.List.Perm.Basic

/-!
# Counting over a list of places

`Tally.total w l` adds up what the places of `l` hold, each weighed by `w`. The
rules say how the total moves when one place does.
-/

namespace Tally

variable {α : Type}

/-- The weights of a list, taken together. -/
def total (w : α → Nat) (l : List α) : Nat := (l.map w).sum

@[simp] theorem total_nil (w : α → Nat) : total w [] = 0 := rfl

@[simp] theorem total_cons (w : α → Nat) (x : α) (l : List α) :
    total w (x :: l) = w x + total w l := rfl

@[simp] theorem total_append (w : α → Nat) (l l' : List α) :
    total w (l ++ l') = total w l + total w l' := by
  simp [total]

theorem total_eq_zero {w : α → Nat} {l : List α} (h : ∀ x ∈ l, w x = 0) : total w l = 0 := by
  induction l with
  | nil => rfl
  | cons x l ih =>
      rw [total_cons, h x List.mem_cons_self, ih fun y hy => h y (List.mem_cons_of_mem _ hy)]

/-- One place is replaced. -/
theorem total_set (w : α → Nat) {l : List α} {a : Nat} {x : α} (hget : l[a]? = some x) (y : α) :
    total w (l.set a y) + w x = total w l + w y := by
  induction l generalizing a with
  | nil => simp at hget
  | cons z l ih =>
      cases a with
      | zero =>
          obtain rfl : z = x := by simpa using hget
          simp only [List.set_cons_zero, total_cons]
          omega
      | succ a =>
          have := ih (a := a) (by simpa using hget)
          simp only [List.set_cons_succ, total_cons]
          omega

/-- One place gains at most `d`. -/
theorem total_modify_le {w : α → Nat} {f : α → α} {d : Nat} (h : ∀ x, w (f x) ≤ w x + d)
    (l : List α) (a : Nat) : total w (l.modify a f) ≤ total w l + d := by
  induction l generalizing a with
  | nil => simp
  | cons x l ih =>
      cases a with
      | zero =>
          have := h x
          simp only [List.modify_zero_cons, total_cons]
          omega
      | succ a =>
          have := ih a
          simp only [List.modify_succ_cons, total_cons]
          omega

/-- Every place gains at most `d`. -/
theorem total_map_le {w : α → Nat} {f : α → α} {d : Nat} (h : ∀ x, w (f x) ≤ w x + d)
    (l : List α) : total w (l.map f) ≤ total w l + d * l.length := by
  induction l with
  | nil => exact Nat.zero_le _
  | cons x l ih =>
      have := h x
      rw [List.map_cons, total_cons, total_cons, List.length_cons, Nat.mul_succ]
      omega

/-! ## Counting elements -/

theorem countP_eq_total (p : α → Bool) (l : List α) :
    l.countP p = total (fun x => (p x).toNat) l := by
  induction l with
  | nil => rfl
  | cons x l ih =>
      rw [List.countP_cons, total_cons, ih]
      cases p x <;> simp [Nat.add_comm]

theorem countP_set (p : α → Bool) {l : List α} {a : Nat} {x : α} (hget : l[a]? = some x)
    (y : α) : (l.set a y).countP p + (p x).toNat = l.countP p + (p y).toNat := by
  rw [countP_eq_total, countP_eq_total]
  exact total_set (fun x => (p x).toNat) hget y

theorem countP_eraseIdx (p : α → Bool) {l : List α} {a : Nat} {x : α} (hget : l[a]? = some x) :
    (l.eraseIdx a).countP p + (p x).toNat = l.countP p := by
  obtain ⟨ha, rfl⟩ := List.getElem?_eq_some_iff.mp hget
  rw [← (List.getElem_cons_eraseIdx_perm ha).countP_eq p, List.countP_cons]
  cases p l[a] <;> simp

theorem ite_le_ite {own : Prop} [Decidable own] {a b : Nat} (h : a ≤ b) :
    (if own then a else 0) ≤ if own then b else 0 := by
  split
  · exact h
  · exact Nat.le_refl 0

/-- What is counted of the images comes from elements of a kind, and there is
none unless `own` holds. -/
theorem countP_filterMap_le {β : Type} {f : α → Option β} {p : β → Bool} {kind : α → Bool}
    {own : Prop} [Decidable own] {l : List α}
    (h : ∀ x ∈ l, ∀ y, f x = some y → p y = true → kind x = true ∧ own) :
    (l.filterMap f).countP p ≤ if own then l.countP kind else 0 := by
  have hpicked : ∀ x ∈ l, ((f x).map p).getD false = true → kind x = true ∧ own := by
    intro x hx hp
    cases hm : f x with
    | none => simp [hm] at hp
    | some y => exact h x hx y hm (by simpa [hm] using hp)
  rw [List.countP_filterMap]
  by_cases hown : own
  · rw [if_pos hown]
    exact List.countP_mono_left fun x hx hp => (hpicked x hx hp).1
  · rw [if_neg hown, Nat.le_zero]
    exact List.countP_eq_zero.mpr fun x hx hp => hown (hpicked x hx hp).2

/-- What is counted of the images is paid for by what was due. -/
theorem countP_filterMap_add_le {β : Type} {f : α → Option β} {p : β → Bool} {kind : α → Bool}
    {own : Prop} [Decidable own] {l : List α} {left due : Nat}
    (h : ∀ x ∈ l, ∀ y, f x = some y → p y = true → kind x = true ∧ own)
    (hpaid : l.countP kind + left ≤ due) :
    (l.filterMap f).countP p + (if own then left else 0) ≤ if own then due else 0 := by
  have hcount := countP_filterMap_le h
  by_cases hown : own
  · simp only [if_pos hown] at hcount ⊢
    omega
  · simp only [if_neg hown] at hcount ⊢
    omega

end Tally

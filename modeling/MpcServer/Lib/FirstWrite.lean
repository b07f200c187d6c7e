import Mathlib.Data.List.Forall2
import Mathlib.Logic.Function.Basic
import Mathlib.Order.Defs.PartialOrder

/-!
# Write-once stores

A store whose only write puts a value under a key that has none. The first
write under a key decides it for good: `Keeps` is the order in which such a
store grows, and `lookup_puts` reads any number of writes back.
-/

namespace FirstWrite

variable {κ ν : Type} [DecidableEq κ]

/-- Write `v` under `k` unless there is an entry already. -/
def put (m : κ → Option ν) (k : κ) (v : ν) : κ → Option ν :=
  match m k with
  | none => Function.update m k (some v)
  | some _ => m

theorem put_apply (m : κ → Option ν) (k k' : κ) (v : ν) :
    put m k v k' = if k' = k then (m k).or (some v) else m k' := by
  unfold put
  by_cases hk : k' = k
  · subst hk
    cases h : m k' <;> simp [h]
  · cases h : m k <;> simp [hk]

theorem put_self (m : κ → Option ν) (k : κ) (v : ν) :
    put m k v k = (m k).or (some v) := by
  simp [put_apply]

theorem put_fresh {m : κ → Option ν} {k : κ} (h : m k = none) (v : ν) :
    put m k v k = some v := by
  simp [put_apply, h]

theorem put_ne (m : κ → Option ν) {k k' : κ} (h : k' ≠ k) (v : ν) :
    put m k v k' = m k' := by
  simp [put_apply, h]

/-- A write changes nothing exactly if there is an entry. -/
theorem put_eq_self_iff (m : κ → Option ν) (k : κ) (v : ν) : put m k v = m ↔ (m k).isSome := by
  constructor
  · intro h
    rw [← h, put_self, Option.isSome_or, Option.isSome_some, Bool.or_true]
  · intro hentry
    ext k' : 1
    by_cases hk : k' = k
    · subst hk
      rw [put_self, Option.or_of_isSome hentry]
    · exact put_ne m hk v

/-- `m'` holds everything `m` holds. -/
def Keeps {κ ν : Type} (m m' : κ → Option ν) : Prop :=
  ∀ k v, m k = some v → m' k = some v

theorem Keeps.refl {κ ν : Type} (m : κ → Option ν) : Keeps m m := fun _ _ h => h

theorem Keeps.trans {κ ν : Type} {m m' m'' : κ → Option ν} (h : Keeps m m')
    (h' : Keeps m' m'') : Keeps m m'' :=
  fun k v hk => h' k v (h k v hk)

theorem keeps_put (m : κ → Option ν) (k : κ) (v : ν) : Keeps m (put m k v) := by
  intro k' v' h
  by_cases hk : k' = k
  · subst hk
    simp [put_self, h]
  · rwa [put_ne m hk]

/-- **The first write decides.** After any writes, a key holds what it held
before them, or else the first value written under it. -/
theorem lookup_puts (ws : List (κ × ν)) (m : κ → Option ν) (k : κ) :
    ws.foldl (fun m w => put m w.1 w.2) m k =
      (m k).or ((ws.find? fun w => w.1 = k).map Prod.snd) := by
  induction ws generalizing m with
  | nil => simp
  | cons w ws ih =>
      rw [List.foldl_cons, ih, put_apply]
      by_cases hk : w.1 = k
      · subst hk
        cases h : m w.1 <;> simp
      · simp [hk, Ne.symm hk]

/-- Let each write stand for something, and let `f` pick what is written under `k`. The
first write under `k` stands for the first thing picked. -/
theorem find?_of_findSome? {σ α : Type} {R : σ → κ × ν → Prop} {f : σ → Option α}
    {xs : List σ} {ws : List (κ × ν)} (k : κ) (h : List.Forall₂ R xs ws)
    (hpick : ∀ x w, R x w → ((f x).isSome ↔ w.1 = k)) {y : α} (hy : xs.findSome? f = some y) :
    ∃ x v, f x = some y ∧ R x (k, v) ∧ (ws.find? fun w => w.1 = k) = some (k, v) := by
  induction h with
  | nil => cases hy
  | @cons x w xs ws hw _ ih =>
      cases hx : f x with
      | some z =>
          have hkey : w.1 = k := (hpick x w hw).mp (by rw [hx, Option.isSome_some])
          obtain rfl : z = y := by simpa [hx] using hy
          subst hkey
          exact ⟨x, w.2, hx, hw, by simp⟩
      | none =>
          have hkey : w.1 ≠ k := fun heq => by simpa [hx] using (hpick x w hw).mpr heq
          obtain ⟨x', v, hx', hwrites, hfind⟩ := ih (by simpa [hx] using hy)
          exact ⟨x', v, hx', hwrites, by simp [hkey, hfind]⟩

end FirstWrite

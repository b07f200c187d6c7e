import Mathlib.Data.List.Nodup
import Mathlib.Logic.Function.Basic

/-!
# Registries of sessions

Sessions are numbered in the order they begin and each has a key; a registry
leads the key of every session that is not done to its number. The rules say
how beginning a session, ending it and leaving it alone keep the two in step.
-/

namespace Registry

variable {κ : Type}

/-- `reg` leads the key of every session that is not done to it, and no other
key anywhere. -/
def Holds (reg : κ → Option Nat) (keys : List κ) (done : Nat → Prop) : Prop :=
  ∀ k a, reg k = some a ↔ keys[a]? = some k ∧ ¬ done a

variable {reg : κ → Option Nat} {keys : List κ} {done done' : Nat → Prop} {k : κ} {a : Nat}

theorem Holds.empty (done : Nat → Prop) : Holds (fun _ : κ => none) [] done := by
  intro k a
  simp

theorem Holds.congr (h : Holds reg keys done) (hdone : ∀ a, a < keys.length → (done a ↔ done' a)) :
    Holds reg keys done' := by
  intro k a
  rw [h k a]
  refine and_congr_right fun hk => not_congr (hdone a ?_)
  exact (List.getElem?_eq_some_iff.mp hk).1

theorem eq_of_same_key (hnodup : keys.Nodup) {b : Nat} (ha : keys[a]? = some k)
    (hb : keys[b]? = some k) : b = a :=
  (List.getElem?_inj (List.getElem?_eq_some_iff.mp hb).1 hnodup).mp (hb.trans ha.symm)

/-- A session is begun under a key of its own. -/
theorem Holds.register [DecidableEq κ] (h : Holds reg keys done) (hfresh : k ∉ keys)
    (hdone : ¬ done keys.length) :
    Holds (Function.update reg k (some keys.length)) (keys ++ [k]) done := by
  intro k' a
  by_cases hk : k' = k
  · subst hk
    rw [Function.update_self, Option.some.injEq]
    constructor
    · rintro rfl
      exact ⟨List.getElem?_concat_length, hdone⟩
    · rintro ⟨hget, -⟩
      obtain ⟨hlt, hget⟩ := List.getElem?_eq_some_iff.mp hget
      rcases Nat.lt_or_ge a keys.length with hold | hnew
      · rw [List.getElem_append_left hold] at hget
        exact absurd (hget ▸ List.getElem_mem hold) hfresh
      · simp only [List.length_append, List.length_cons, List.length_nil] at hlt
        omega
  · rw [Function.update_of_ne hk, h k' a]
    refine and_congr_left fun _ => ?_
    rcases Nat.lt_trichotomy a keys.length with hlt | rfl | hgt
    · rw [List.getElem?_append_left hlt]
    · simp [Ne.symm hk]
    · rw [List.getElem?_eq_none (by omega), List.getElem?_eq_none (by simp; omega)]

/-- A session ends, and its key leaves the registry. -/
theorem Holds.release [DecidableEq κ] (h : Holds reg keys done) (hnodup : keys.Nodup)
    (hk : keys[a]? = some k) (hdone : ∀ b, done' b ↔ done b ∨ b = a) :
    Holds (Function.update reg k none) keys done' := by
  intro k' b
  by_cases hkk : k' = k
  · subst hkk
    rw [Function.update_self, hdone]
    constructor
    · intro h
      cases h
    · rintro ⟨hb, hnot⟩
      exact absurd (.inr (eq_of_same_key hnodup hk hb)) hnot
  · rw [Function.update_of_ne hkk, h k' b, hdone]
    refine and_congr_right fun hb => not_congr ⟨Or.inl, fun hor => hor.resolve_right ?_⟩
    rintro rfl
    exact hkk (Option.some.inj (hb.symm.trans hk))

/-- The key of a session that is done is free. -/
theorem Holds.free (h : Holds reg keys done) (hnodup : keys.Nodup) (hk : keys[a]? = some k)
    (hdone : done a) : reg k = none := by
  cases hr : reg k with
  | none => rfl
  | some b =>
      obtain ⟨hb, hnot⟩ := (h k b).mp hr
      obtain rfl := eq_of_same_key hnodup hk hb
      exact absurd hdone hnot

/-- The sessions have different keys, and `reg` holds those that are not done. -/
structure Tracks (reg : κ → Option Nat) (keys : List κ) (done : Nat → Prop) : Prop where
  distinct : keys.Nodup
  holds : Holds reg keys done

theorem Tracks.empty (done : Nat → Prop) : Tracks (fun _ : κ => none) [] done :=
  ⟨List.nodup_nil, .empty done⟩

theorem Tracks.congr (h : Tracks reg keys done)
    (hdone : ∀ a, a < keys.length → (done a ↔ done' a)) : Tracks reg keys done' :=
  ⟨h.distinct, h.holds.congr hdone⟩

theorem Tracks.register [DecidableEq κ] (h : Tracks reg keys done) (hfresh : k ∉ keys)
    (hdone : ¬ done keys.length) :
    Tracks (Function.update reg k (some keys.length)) (keys ++ [k]) done where
  distinct := by
    refine List.nodup_append.mpr ⟨h.distinct, List.nodup_singleton k, fun a ha b hb => ?_⟩
    rintro rfl
    exact hfresh (List.mem_singleton.mp hb ▸ ha)
  holds := h.holds.register hfresh hdone

theorem Tracks.release [DecidableEq κ] (h : Tracks reg keys done) (hk : keys[a]? = some k)
    (hdone : ∀ b, done' b ↔ done b ∨ b = a) : Tracks (Function.update reg k none) keys done' :=
  ⟨h.distinct, h.holds.release h.distinct hk hdone⟩

/-! ## Entries of the right key -/

/-- Every entry leads to a session of its key. -/
def Points (reg : κ → Option Nat) (keys : List κ) : Prop :=
  ∀ k a, reg k = some a → keys[a]? = some k

theorem Points.empty (keys : List κ) : Points (fun _ : κ => none) keys := by
  intro k a h
  cases h

theorem Points.grow (h : Points reg keys) (more : List κ) : Points reg (keys ++ more) := by
  intro k a ha
  have hget := h k a ha
  rw [List.getElem?_append_left (List.getElem?_eq_some_iff.mp hget).1, hget]

theorem Points.register [DecidableEq κ] (h : Points reg keys) {n : Nat} (hn : keys.length = n)
    (k : κ) : Points (Function.update reg k (some n)) (keys ++ [k]) := by
  subst hn
  intro k' a ha
  by_cases hk : k' = k
  · subst hk
    rw [Function.update_self] at ha
    cases ha
    exact List.getElem?_concat_length
  · rw [Function.update_of_ne hk] at ha
    exact h.grow [k] k' a ha

theorem Points.release [DecidableEq κ] (h : Points reg keys) (k : κ) :
    Points (Function.update reg k none) keys := by
  intro k' a ha
  by_cases hk : k' = k
  · subst hk
    rw [Function.update_self] at ha
    cases ha
  · rw [Function.update_of_ne hk] at ha
    exact h k' a ha

/-! ## One step -/

/-- What a step does to a registry and its sessions: nothing, one session begins under a
key with `adds`, or a key with `drops` leaves the registry. -/
inductive Turn [DecidableEq κ] (adds drops : κ → Prop) (reg : κ → Option Nat) (keys : List κ) :
    (κ → Option Nat) → List κ → Prop
  | still : Turn adds drops reg keys reg keys
  | registered {j : κ} : adds j →
      Turn adds drops reg keys (Function.update reg j (some keys.length)) (keys ++ [j])
  | released {j : κ} : drops j → Turn adds drops reg keys (Function.update reg j none) keys

section
variable [DecidableEq κ] {adds drops : κ → Prop} {reg' : κ → Option Nat} {keys' : List κ}

/-! The sessions that a step begins are given as a list. -/

section
variable {α : Type} {room : α → κ} {started : List α}

theorem Turn.of_still (hreg : reg' = reg) (hkeys : keys' = keys ++ started.map room)
    (hnone : started = []) : Turn adds drops reg keys reg' keys' := by
  subst hreg hkeys hnone
  rw [List.map_nil, List.append_nil]
  exact .still

theorem Turn.of_registered {a : α} {n : Nat} (hn : keys.length = n)
    (hreg : reg' = Function.update reg (room a) (some n))
    (hkeys : keys' = keys ++ started.map room) (hone : started = [a]) (hadds : adds (room a)) :
    Turn adds drops reg keys reg' keys' := by
  subst hreg hkeys hone hn
  exact .registered hadds

theorem Turn.of_released (hreg : reg' = Function.update reg k none)
    (hkeys : keys' = keys ++ started.map room) (hnone : started = []) (hdrops : drops k) :
    Turn adds drops reg keys reg' keys' := by
  subst hreg hkeys hnone
  rw [List.map_nil, List.append_nil]
  exact .released hdrops

end

theorem Points.turn (h : Points reg keys) (hturn : Turn adds drops reg keys reg' keys') :
    Points reg' keys' := by
  cases hturn with
  | still => exact h
  | registered _ => exact h.register rfl _
  | released _ => exact h.release _

/-- Where nothing is ever taken back, a registry holds all there were. -/
theorem Tracks.turn (h : Tracks reg keys fun _ => False)
    (hturn : Turn adds (fun _ => False) reg keys reg' keys') (hfresh : ∀ k, adds k → k ∉ keys) :
    Tracks reg' keys' fun _ => False := by
  cases hturn with
  | still => exact h
  | registered hk => exact h.register (hfresh _ hk) not_false
  | released hk => exact hk.elim

end

/-! ## Entries in range -/

/-- Every entry leads to one of the first `n` sessions. -/
def Within (reg : κ → Option Nat) (n : Nat) : Prop := ∀ k a, reg k = some a → a < n

section
variable {n m : Nat}

theorem Within.empty (n : Nat) : Within (fun _ : κ => none) n := by
  intro k a h
  cases h

theorem Within.mono (h : Within reg n) (hle : n ≤ m) : Within reg m :=
  fun k a ha => Nat.lt_of_lt_of_le (h k a ha) hle

theorem Within.register [DecidableEq κ] (h : Within reg n) (hlt : n < m) :
    Within (Function.update reg k (some n)) m := by
  intro k' a ha
  by_cases hk : k' = k
  · subst hk
    rw [Function.update_self] at ha
    cases ha
    exact hlt
  · rw [Function.update_of_ne hk] at ha
    exact Nat.lt_trans (h k' a ha) hlt

theorem Within.release [DecidableEq κ] (h : Within reg n) :
    Within (Function.update reg k none) n := by
  intro k' a ha
  by_cases hk : k' = k
  · subst hk
    rw [Function.update_self] at ha
    cases ha
  · rw [Function.update_of_ne hk] at ha
    exact h k' a ha

end

end Registry

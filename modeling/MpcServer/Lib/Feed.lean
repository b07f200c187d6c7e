import MpcServer.Lib.Machine

/-!
# A log and its readers

Entries are appended to a log, and everybody who reads it has a position of
his own. A read gives the entry at the reader's position and moves it on by
one; where there is no entry yet there is nothing to read. Nobody waits for
anybody, and the log forgets nothing.
-/

open Machine

/-- A log, and how far each reader has got. -/
structure Feed (α : Type) where
  entries : List α
  positions : List Nat

namespace Feed

variable {α : Type}

/-- An entry comes, a reader comes, or a reader reads on. -/
inductive Event (α : Type)
  | append (a : α)
  | join (start : Nat)
  | read (k : Nat)

/-- What the `k`-th reader reads at a position. -/
structure Read (α : Type) where
  k : Nat
  position : Nat
  entry : α

/-- Nothing has been written and nobody reads. -/
def empty : Feed α := { entries := [], positions := [] }

/-- One step of the log. -/
def step : Step (Feed α) (Event α) (Read α) := fun feed e =>
  match e with
  | .append a => some ({ feed with entries := feed.entries ++ [a] }, [])
  | .join start => some ({ feed with positions := feed.positions ++ [start] }, [])
  | .read k =>
      match feed.positions[k]? with
      | some position =>
          match feed.entries[position]? with
          | some a =>
              some ({ feed with positions := feed.positions.set k (position + 1) },
                [⟨k, position, a⟩])
          | none => none
      | none => none

/-- **What a step can do.** -/
inductive Steps (feed : Feed α) : Event α → Feed α → List (Read α) → Prop
  | appended (a) : Steps feed (.append a) { feed with entries := feed.entries ++ [a] } []
  | joined (start) :
      Steps feed (.join start) { feed with positions := feed.positions ++ [start] } []
  | read {k position a} : feed.positions[k]? = some position →
      feed.entries[position]? = some a →
      Steps feed (.read k) { feed with positions := feed.positions.set k (position + 1) }
        [⟨k, position, a⟩]

theorem step_cases {feed t : Feed α} {e : Event α} {o : List (Read α)}
    (h : step feed e = some (t, o)) : Steps feed e t o := by
  cases e with
  | append a =>
      cases h
      exact .appended a
  | join start =>
      cases h
      exact .joined start
  | read k =>
      simp only [step] at h
      split at h
      · split at h
        · cases h
          exact .read ‹_› ‹_›
        · cases h
      · cases h

theorem Steps.step_eq {feed t : Feed α} {e : Event α} {o : List (Read α)}
    (h : Steps feed e t o) : step feed e = some (t, o) := by
  cases h with
  | appended a => rfl
  | joined start => rfl
  | read hk ha => simp only [step, hk, ha]

/-! ## What a reader has read -/

/-- The entry that the `k`-th reader reads, with its position. -/
def readBy (k : Nat) (x : Read α) : Option (α × Nat) :=
  if x.k = k then some (x.entry, x.position) else none

/-- The entries from `start` up to `position`, each with its own position. -/
def between (feed : Feed α) (start position : Nat) : List (α × Nat) :=
  (feed.entries.zipIdx.drop start).take (position - start)

/-- The `k`-th reader has read the entries from `start` on up to its position,
one by one, and stands inside the log or still at its start. -/
structure Follows (k start position : Nat) (os : List (Read α)) (feed : Feed α) : Prop where
  here : feed.positions[k]? = some position
  reads : os.filterMap (readBy k) = feed.between start position
  started : start ≤ position
  inside : position ≤ max start feed.entries.length

section
variable {k start position : Nat} {os o : List (Read α)} {feed t : Feed α} {e : Event α}

theorem between_self (feed : Feed α) (start : Nat) : feed.between start start = [] := by
  rw [between, Nat.sub_self, List.take_zero]

theorem between_append (feed : Feed α) (hstart : start ≤ position)
    (hinside : position ≤ max start feed.entries.length) (a : α) :
    ({ feed with entries := feed.entries ++ [a] } : Feed α).between start position =
      feed.between start position := by
  unfold between
  rw [List.zipIdx_append]
  by_cases h : start ≤ feed.entries.length
  · have hlen : (feed.entries.zipIdx.drop start).length = feed.entries.length - start := by
      rw [List.length_drop, List.length_zipIdx]
    rw [List.drop_append_of_le_length (by rwa [List.length_zipIdx]),
      List.take_append_of_le_length (by omega)]
  · have hnothing : position - start = 0 := by omega
    rw [hnothing, List.take_zero, List.take_zero]

theorem between_succ (feed : Feed α) {a : α} (hstart : start ≤ position)
    (ha : feed.entries[position]? = some a) :
    feed.between start (position + 1) = feed.between start position ++ [(a, position)] := by
  have hsub : position + 1 - start = (position - start) + 1 := by omega
  have hget : (feed.entries.zipIdx.drop start)[position - start]? = some (a, position) := by
    rw [List.getElem?_drop, Nat.add_sub_cancel' hstart, List.getElem?_zipIdx, ha]
    simp
  unfold between
  rw [hsub, List.take_add_one, hget]
  rfl

theorem Follows.step (h : Follows k start position os feed) (hs : Steps feed e t o) :
    ∃ position', Follows k start position' (os ++ o) t := by
  cases hs with
  | appended a =>
      rw [List.append_nil]
      refine ⟨position, h.here, ?_, h.started, ?_⟩
      · rw [between_append feed h.started h.inside]
        exact h.reads
      · have := h.inside
        simp only [List.length_append, List.length_singleton]
        omega
  | joined start =>
      rw [List.append_nil]
      obtain ⟨hlt, -⟩ := List.getElem?_eq_some_iff.mp h.here
      exact ⟨position, (List.getElem?_append_left hlt).trans h.here, h.reads, h.started, h.inside⟩
  | @read j at' a hj ha =>
      have hsingle : os.filterMap (readBy k) ++ [(⟨j, at', a⟩ : Read α)].filterMap (readBy k) =
          os.filterMap (readBy k) ++ if j = k then [(a, at')] else [] := by
        by_cases hjk : j = k <;> simp [readBy, hjk]
      by_cases hjk : j = k
      · subst hjk
        cases h.here.symm.trans hj
        obtain ⟨hlt, -⟩ := List.getElem?_eq_some_iff.mp hj
        obtain ⟨hpos, -⟩ := List.getElem?_eq_some_iff.mp ha
        refine ⟨position + 1, List.getElem?_set_self hlt, ?_, Nat.le_succ_of_le h.started, ?_⟩
        · rw [List.filterMap_append, hsingle, if_pos rfl, h.reads,
            ← between_succ feed h.started ha]
          rfl
        · show position + 1 ≤ max start feed.entries.length
          omega
      · refine ⟨position, (List.getElem?_set_ne hjk).trans h.here, ?_, h.started, h.inside⟩
        rw [List.filterMap_append, hsingle, if_neg hjk, List.append_nil, h.reads]
        rfl

end

/-- **Everybody reads the log in its order**, from where he stood on and without a gap. -/
theorem follows_of_run {guard : Feed α → Event α → Prop} {feed₀ feed : Feed α}
    {os : List (Read α)} (hrun : Run step guard feed₀ os feed) {k start : Nat}
    (hk : feed₀.positions[k]? = some start) : ∃ position, Follows k start position os feed := by
  refine hrun.invariant (fun os feed => ∃ position, Follows k start position os feed) ?_ ?_
  · exact ⟨start, hk, (between_self feed₀ start).symm, Nat.le_refl _, Nat.le_max_left _ _⟩
  · rintro os feed e t o - ⟨position, h⟩ - hs
    exact h.step (step_cases hs)

end Feed

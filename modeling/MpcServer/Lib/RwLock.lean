import Mathlib.Logic.Basic

/-!
# A reader-writer lock

Any number of readers or one writer. What the lock keeps apart is a field of
the structure, so no state of a program can violate it.
-/

/-- A value behind a lock that a writer holds alone. -/
structure RwLock (α : Type) where
  value : α
  readers : Nat
  writing : Bool
  excludes : writing = true → readers = 0

namespace RwLock

variable {α : Type}

/-- A lock that nobody holds. -/
def new (value : α) : RwLock α := { value, readers := 0, writing := false, excludes := by simp }

/-- Readers share the lock. -/
def acquireRead (l : RwLock α) : Option (RwLock α) :=
  if l.writing then none
  else some { value := l.value, readers := l.readers + 1, writing := false, excludes := by simp }

/-- A writer waits until nobody holds it. -/
def acquireWrite (l : RwLock α) : Option (RwLock α) :=
  if l.writing ∨ l.readers ≠ 0 then none
  else some { value := l.value, readers := 0, writing := true, excludes := fun _ => rfl }

/-- A reader lets go. -/
def releaseRead (l : RwLock α) : RwLock α :=
  { l with
    readers := l.readers - 1
    excludes := fun h => by rw [l.excludes h] }

/-- The writer lets go. -/
def releaseWrite (l : RwLock α) : RwLock α :=
  { value := l.value, readers := l.readers, writing := false, excludes := by simp }

/-- What the holder of the write guard does to the value. -/
def update (l : RwLock α) (f : α → α) : RwLock α :=
  { l with value := f l.value }

variable {l m : RwLock α}

theorem acquireRead_eq_some (h : l.acquireRead = some m) :
    l.writing = false ∧ m.value = l.value ∧ m.readers = l.readers + 1 ∧ m.writing = false := by
  unfold acquireRead at h
  split at h
  · cases h
  · rename_i hw
    cases h
    exact ⟨by simpa using hw, rfl, rfl, rfl⟩

theorem acquireWrite_eq_some (h : l.acquireWrite = some m) :
    l.writing = false ∧ l.readers = 0 ∧ m.value = l.value ∧ m.readers = 0 ∧
      m.writing = true := by
  unfold acquireWrite at h
  split at h
  · cases h
  · rename_i hfree
    simp only [not_or, not_not, Bool.not_eq_true] at hfree
    cases h
    exact ⟨hfree.1, hfree.2, rfl, rfl, rfl⟩

end RwLock

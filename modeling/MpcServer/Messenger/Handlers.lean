import MpcServer.Messenger.Rooms

/-!
# The handlers of the messenger

A request brings in a handler, which finds its room, does what it came for and
returns, each in its own time. Until then its broadcast is under way.
-/

namespace MpcServer.Messenger

open Machine

/-- The text of a broadcast that has not been published. -/
def Handler.underWay (x : Handler) : Option String :=
  match x.task with
  | .broadcast message => if x.progress = .returned then none else some message
  | .subscribe _ => none

namespace Db

/-- The broadcasts that are under way, each under the number of its handler. -/
def underWay (db : Db) (h : Nat) : Option String := db.handlers[h]?.bind Handler.underWay

/-- The map with one handler more. -/
def addHandler (db : Db) (task : Task) (progress : Progress) : Db :=
  { db with handlers := db.handlers ++ [{ task, progress }] }

theorem addHandler_get (db : Db) (task : Task) (progress : Progress) :
    (db.addHandler task progress).handlers[db.handlers.length]? = some ⟨task, progress⟩ :=
  List.getElem?_concat_length

theorem addHandler_set (db : Db) (task : Task) (p q : Progress) :
    (db.addHandler task p).setHandler db.handlers.length task q = db.addHandler task q := by
  show ({ db with handlers := (db.handlers ++ [_]).set db.handlers.length _ } : Db) = _
  rw [List.set_append_right _ _ (Nat.le_refl _), Nat.sub_self]
  rfl

theorem underWay_addHandler (db : Db) (task : Task) (progress : Progress) :
    (db.addHandler task progress).underWay =
      Function.update db.underWay db.handlers.length (Handler.underWay ⟨task, progress⟩) := by
  funext h
  unfold underWay addHandler
  rw [List.getElem?_append, Function.update_apply]
  by_cases hlt : h < db.handlers.length
  · rw [if_pos hlt, if_neg (by omega)]
  · by_cases heq : h = db.handlers.length
    · simp [heq]
    · have hout : db.handlers.length < h := by omega
      rw [if_neg hlt, if_neg heq, List.getElem?_eq_none (by simp; omega),
        List.getElem?_eq_none (by omega)]

theorem underWay_set {db t : Db} {h : Nat} {x : Handler}
    (hlt : h < db.handlers.length) (ht : t.handlers = db.handlers.set h x) :
    t.underWay = Function.update db.underWay h x.underWay := by
  funext h'
  unfold underWay
  rw [ht, Function.update_apply]
  by_cases heq : h' = h
  · subst heq
    rw [List.getElem?_set_self hlt, if_pos rfl]
    rfl
  · rw [List.getElem?_set_ne (Ne.symm heq), if_neg heq]

/-- **What a step does to the handlers.** One comes in, one gets on, or one returns with
what it was to do; the others stay where they are. -/
inductive Handles (db t : Db) : Event → List Obs → Prop
  | stayed {e o} : t.handlers = db.handlers → (∀ h room, .subscribed h room ∉ o) →
      (∀ h room message, .published h room message ∉ o) → Handles db t e o
  | came (task) : t = db.addHandler task .start → Handles db t (.request task) []
  | moved {e o h task p p'} : db.handlers[h]? = some ⟨task, p⟩ →
      t.handlers = db.handlers.set h ⟨task, p'⟩ → p ≠ .returned → p' ≠ .returned →
      (∀ room, p' = .found room → t.rooms roomKey = some room) →
      (∀ h room, .subscribed h room ∉ o) →
      (∀ h room message, .published h room message ∉ o) → Handles db t e o
  | subscribed {h last room} : db.handlers[h]? = some ⟨.subscribe last, .found room⟩ →
      t.handlers = db.handlers.set h ⟨.subscribe last, .returned⟩ →
      Handles db t (.finish h) [.subscribed h room]
  | published {h message room} : db.handlers[h]? = some ⟨.broadcast message, .found room⟩ →
      t.handlers = db.handlers.set h ⟨.broadcast message, .returned⟩ →
      Handles db t (.finish h) [.published h room message]

section
variable {checks : Bool} {db t : Db} {e : Event} {o : List Obs}

theorem Steps.handles (hs : Steps checks db e t o) : Handles db t e o := by
  cases hs with
  | request task => exact .came task rfl
  | readFound hget hfound =>
      refine .moved hget rfl (by simp) (by simp) (fun room hroom => ?_) (by simp) (by simp)
      cases hroom
      exact (lookupRead_some hfound).1
  | readMissed hget _ =>
      exact .moved hget rfl (by simp) (by simp) (by simp) (by simp) (by simp)
  | writeFound hget hroom _ =>
      refine .moved hget rfl (by simp) (by simp) (fun room hr => ?_) (by simp) (by simp)
      cases hr
      exact hroom
  | writeNew hget _ =>
      refine .moved hget rfl (by simp) (by simp) (fun room hr => ?_) (by simp) (by simp)
      cases hr
      exact Function.update_self roomKey _ db.rooms
  | subscribed hget _ => exact .subscribed hget rfl
  | panicked hget _ =>
      exact .moved hget rfl (by simp) (by simp) (by simp) (by simp) (by simp)
  | published hget => exact .published hget rfl
  | returned _ _ _ _ _ => exact .stayed rfl (by simp) (by simp)
  | overflowed _ _ _ _ _ => exact .stayed rfl (by simp) (by simp)
  | awaits _ _ _ _ => exact .stayed rfl (by simp) (by simp)
  | woken _ _ _ => exact .stayed rfl (by simp) (by simp)
  | closed _ _ => exact .stayed rfl (by simp) (by simp)

/-- A handler keeps its task, and once it has returned it stays so. -/
theorem Handles.get (hh : Handles db t e o) {h : Nat} {task : Task} {p : Progress}
    (hget : db.handlers[h]? = some ⟨task, p⟩) :
    ∃ p', t.handlers[h]? = some ⟨task, p'⟩ ∧ (p = .returned → p' = .returned) := by
  have hset {h' : Nat} {task' : Task} {q q' : Progress}
      (hget' : db.handlers[h']? = some ⟨task', q⟩)
      (ht : t.handlers = db.handlers.set h' ⟨task', q'⟩) (hq : q ≠ .returned) :
      ∃ p', t.handlers[h]? = some ⟨task, p'⟩ ∧ (p = .returned → p' = .returned) := by
    by_cases heq : h' = h
    · subst heq
      cases hget.symm.trans hget'
      refine ⟨q', ?_, fun hp => absurd hp hq⟩
      rw [ht, List.getElem?_set_self (List.getElem?_eq_some_iff.mp hget).1]
    · exact ⟨p, by rw [ht, List.getElem?_set_ne heq, hget], id⟩
  cases hh with
  | stayed ht _ _ => exact ⟨p, ht ▸ hget, id⟩
  | came task' ht =>
      refine ⟨p, ?_, id⟩
      rw [ht, addHandler, List.getElem?_append_left (List.getElem?_eq_some_iff.mp hget).1, hget]
  | moved hget' ht hq _ _ _ _ => exact hset hget' ht hq
  | subscribed hget' ht => exact hset hget' ht (by simp)
  | published hget' ht => exact hset hget' ht (by simp)

/-- A handler that has found a room had found it before, or finds the one in the map. -/
theorem Handles.found (hh : Handles db t e o) {h room : Nat} {task : Task}
    (hget : t.handlers[h]? = some ⟨task, .found room⟩) :
    db.handlers[h]? = some ⟨task, .found room⟩ ∨ t.rooms roomKey = some room := by
  have hset {h' : Nat} {task' : Task} {q : Progress}
      (ht : t.handlers = db.handlers.set h' ⟨task', q⟩)
      (hq : q = .found room → t.rooms roomKey = some room) :
      db.handlers[h]? = some ⟨task, .found room⟩ ∨ t.rooms roomKey = some room := by
    rw [ht] at hget
    by_cases heq : h' = h
    · subst heq
      rw [List.getElem?_set_self'] at hget
      obtain ⟨_, -, hx⟩ := Option.map_eq_some_iff.mp hget
      cases hx
      exact .inr (hq rfl)
    · exact .inl (by rwa [List.getElem?_set_ne heq] at hget)
  cases hh with
  | stayed ht _ _ => exact .inl (ht ▸ hget)
  | came task' ht =>
      rw [ht, addHandler, List.getElem?_append] at hget
      split at hget
      · exact .inl hget
      · rw [List.getElem?_singleton] at hget
        split at hget <;> cases hget
  | moved _ ht _ _ hq _ _ => exact hset ht fun h => hq room h
  | subscribed _ ht => exact hset ht fun h => by cases h
  | published _ ht => exact hset ht fun h => by cases h

end

/-- What a step does to the broadcasts under way. -/
inductive Carries (db t : Db) : Event → List Obs → Prop
  | stayed {e o} : t.underWay = db.underWay →
      (∀ h room message, .published h room message ∉ o) → Carries db t e o
  | came (message) :
      t.underWay = Function.update db.underWay db.handlers.length (some message) →
      Carries db t (.request (.broadcast message)) []
  | published {h message room} : db.handlers[h]? = some ⟨.broadcast message, .found room⟩ →
      db.underWay h = some message → t.underWay = Function.update db.underWay h none →
      Carries db t (.finish h) [.published h room message]

theorem Handles.carries {db t : Db} {e : Event} {o : List Obs} (hh : Handles db t e o) :
    Carries db t e o := by
  cases hh with
  | stayed ht _ hp => exact .stayed (by unfold underWay; rw [ht]) hp
  | came task ht =>
      cases task with
      | subscribe last =>
          refine .stayed ?_ (by simp)
          rw [ht, underWay_addHandler]
          refine Function.update_eq_self_iff.mpr ?_
          rw [underWay, List.getElem?_eq_none (Nat.le_refl _)]
          rfl
      | broadcast message =>
          refine .came message ?_
          rw [ht, underWay_addHandler]
          rfl
  | @moved e o h task p p' hget ht hp hp' _ _ hnot =>
      refine .stayed ?_ hnot
      rw [underWay_set (List.getElem?_eq_some_iff.mp hget).1 ht]
      refine Function.update_eq_self_iff.mpr ?_
      cases task <;> simp [underWay, Handler.underWay, hget, hp, hp']
  | @subscribed h last room hget ht =>
      refine .stayed ?_ (by simp)
      rw [underWay_set (List.getElem?_eq_some_iff.mp hget).1 ht]
      refine Function.update_eq_self_iff.mpr ?_
      simp [underWay, Handler.underWay, hget]
  | published hget ht =>
      refine .published hget ?_ ?_
      · simp [underWay, Handler.underWay, hget]
      · rw [underWay_set (List.getElem?_eq_some_iff.mp hget).1 ht]
        rfl

end Db

end MpcServer.Messenger

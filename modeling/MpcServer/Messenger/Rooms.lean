import Mathlib.Logic.Function.Basic
import MpcServer.Lib.Machine
import MpcServer.Lib.Method

/-!
# The message broker

`/broadcast` appends a text to the one room, `/subscribe` streams the room's
texts from a position on. Handlers run on different threads. A step is one
section under the read lock or the write lock of the map, one update of the
atomic counter, one append, one poll; between two steps of a handler anything
may happen.

A room without subscribers is replaced by an empty one when it is next looked
up. An `Arc<Room>` is the room's place in `heap`, where rooms are never freed.
-/

namespace MpcServer.Messenger

open Rust

/-- `ROOM_ID` -/
def roomKey : String := "---default---"

/-- A room: its history and its counter. -/
structure Room where
  messages : List String
  subscribers : UInt16
  deriving DecidableEq, Repr

namespace Room

/-- A room as it is created. -/
def empty : Room := { messages := [], subscribers := 0 }

/-- `is_abandoned` -/
def isAbandoned (room : Room) : Bool := room.subscribers = 0

end Room

/-- What a request asks for. -/
inductive Task
  | subscribe (lastSeenMsg : Option UInt16)
  | broadcast (message : String)
  deriving DecidableEq, Repr

/-- How far a handler got: `start` and `missed` stand before the read and the
write section of `get_room_or_create_empty`, `found` behind them. A handler
that panics over `i + 1` has raised the counter already. -/
inductive Progress
  | start
  | missed
  | found (room : Nat)
  | returned
  | panicked (room : Nat)
  deriving DecidableEq, Repr

/-- A request and how far it has got. -/
structure Handler where
  task : Task
  progress : Progress
  deriving DecidableEq, Repr

/-- `waiting` is `none` while the subscription is about to read the history,
and tells afterwards whether its notification has come. -/
structure Subscription where
  room : Nat
  nextEvent : UInt16
  waiting : Option Bool
  live : Bool
  deriving DecidableEq, Repr

/-- The map of rooms, and everybody who is at work on it. -/
structure Db where
  heap : List Room
  rooms : String → Option Nat
  handlers : List Handler
  subscriptions : List Subscription

/-- A request comes in, a handler gets on, or a subscription does. -/
inductive Event
  | request (task : Task)
  | read (h : Nat)
  | write (h : Nat)
  | finish (h : Nat)
  | poll (k : Nat)
  | wake (k : Nat)
  | close (k : Nat)
  deriving DecidableEq, Repr

/-- What is seen of a step. -/
inductive Obs
  | found (h : Nat) (room : Nat)
  | subscribed (h : Nat) (room : Nat)
  | published (h : Nat) (room : Nat) (message : String)
  | returned (k : Nat) (id : UInt16) (message : String)
  deriving DecidableEq, Repr

namespace Db

/-- A room as it is created. -/
def empty : Db := { heap := [], rooms := fun _ => none, handlers := [], subscriptions := [] }

/-- The room behind an `Arc`. -/
def roomAt (db : Db) (room : Nat) : Room := db.heap.getD room Room.empty

/-- The handler gets on. -/
def setHandler (db : Db) (h : Nat) (task : Task) (progress : Progress) : Db :=
  { db with handlers := db.handlers.set h { task, progress } }

/-- The subscription gets on. -/
def setSubscription (db : Db) (k : Nat) (sub : Subscription) : Db :=
  { db with subscriptions := db.subscriptions.set k sub }

/-! ## `get_room_or_create_empty` -/

/-- The section under the read lock. -/
def lookupRead (db : Db) (roomId : String) : Option Nat :=
  match db.rooms roomId with
  | some room => if (db.roomAt room).isAbandoned then none else some room
  | none => none

/-- A new room takes the place of the old one in the map. -/
def insertRoom (db : Db) (roomId : String) : Db :=
  { db with
    heap := db.heap ++ [Room.empty]
    rooms := Function.update db.rooms roomId (some db.heap.length) }

/-- The section under the write lock. -/
def lookupWrite (db : Db) (roomId : String) : Db × Nat :=
  match db.rooms roomId with
  | some room =>
      if (db.roomAt room).isAbandoned then (db.insertRoom roomId, db.heap.length) else (db, room)
  | none => (db.insertRoom roomId, db.heap.length)

/-! ## Rooms and subscriptions -/

/-- `fetch_add` -/
def raise (db : Db) (room : Nat) : Db :=
  { db with heap := db.heap.modify room fun r => { r with subscribers := r.subscribers + 1 } }

/-- `fetch_sub` -/
def lower (db : Db) (room : Nat) : Db :=
  { db with heap := db.heap.modify room fun r => { r with subscribers := r.subscribers - 1 } }

/-- `last_seen_msg.map(|i| i + 1).unwrap_or(0)` -/
def nextEventOf (checks : Bool) : Option UInt16 → Except Panic UInt16
  | some i => addU16 checks i 1
  | none => .ok 0

/-- `notify_waiters`, as one subscription of the room sees it. -/
def notify (room : Nat) (sub : Subscription) : Subscription :=
  if sub.room = room ∧ sub.waiting = some false then { sub with waiting := some true } else sub

/-- `Room::publish` -/
def publish (db : Db) (room : Nat) (message : String) : Db :=
  { db with
    heap := db.heap.modify room fun r => { r with messages := r.messages ++ [message] }
    subscriptions := db.subscriptions.map (notify room) }

/-- `Drop for Subscription`. -/
def closeSubscription (db : Db) (k : Nat) (sub : Subscription) : Db :=
  (db.lower sub.room).setSubscription k { sub with live := false }

/-- One turn of the loop in `next`, up to its `await`. -/
def poll (checks : Bool) (db : Db) (k : Nat) (sub : Subscription) : Db × List Obs :=
  match (db.roomAt sub.room).messages[sub.nextEvent.toNat]? with
  | some message =>
      match addU16 checks sub.nextEvent 1 with
      | .ok nextEvent =>
          (db.setSubscription k { sub with nextEvent }, [.returned k sub.nextEvent message])
      | .error _ => (db.closeSubscription k sub, [])
  | none => (db.setSubscription k { sub with waiting := some false }, [])

theorem lookupRead_some {db : Db} {roomId : String} {room : Nat}
    (h : db.lookupRead roomId = some room) :
    db.rooms roomId = some room ∧ (db.roomAt room).isAbandoned = false := by
  unfold lookupRead at h
  split at h
  · split at h
    · cases h
    · rename_i hab
      cases h
      exact ⟨‹_›, by simpa using hab⟩
  · cases h

/-! ## Steps -/

/-- One step of the messenger. -/
def step (checks : Bool) : Machine.Step Db Event Obs := fun db e =>
  match e with
  | .request task =>
      some ({ db with handlers := db.handlers ++ [{ task, progress := .start }] }, [])
  | .read h =>
      match db.handlers[h]? with
      | some ⟨task, .start⟩ =>
          match db.lookupRead roomKey with
          | some room => some (db.setHandler h task (.found room), [.found h room])
          | none => some (db.setHandler h task .missed, [])
      | _ => none
  | .write h =>
      match db.handlers[h]? with
      | some ⟨task, .missed⟩ =>
          let (db, room) := db.lookupWrite roomKey
          some (db.setHandler h task (.found room), [.found h room])
      | _ => none
  | .finish h =>
      match db.handlers[h]? with
      | some ⟨.subscribe last, .found room⟩ =>
          match nextEventOf checks last with
          | .ok nextEvent =>
              let db := (db.raise room).setHandler h (.subscribe last) .returned
              let sub := { room, nextEvent, waiting := none, live := true }
              some ({ db with subscriptions := db.subscriptions ++ [sub] }, [.subscribed h room])
          | .error _ =>
              some ((db.raise room).setHandler h (.subscribe last) (.panicked room), [])
      | some ⟨.broadcast message, .found room⟩ =>
          some ((db.publish room message).setHandler h (.broadcast message) .returned,
            [.published h room message])
      | _ => none
  | .poll k =>
      match db.subscriptions[k]? with
      | some sub => if sub.live ∧ sub.waiting = none then some (db.poll checks k sub) else none
      | none => none
  | .wake k =>
      match db.subscriptions[k]? with
      | some sub =>
          if sub.live ∧ sub.waiting = some true then
            some (db.setSubscription k { sub with waiting := none }, [])
          else none
      | none => none
  | .close k =>
      match db.subscriptions[k]? with
      | some sub => if sub.live then some (db.closeSubscription k sub, []) else none
      | none => none

/-- **What a step can do.** -/
inductive Steps (checks : Bool) (db : Db) : Event → Db → List Obs → Prop
  | request (task) :
      Steps checks db (.request task)
        { db with handlers := db.handlers ++ [{ task, progress := .start }] } []
  | readFound {h task room} : db.handlers[h]? = some ⟨task, .start⟩ →
      db.lookupRead roomKey = some room →
      Steps checks db (.read h) (db.setHandler h task (.found room)) [.found h room]
  | readMissed {h task} : db.handlers[h]? = some ⟨task, .start⟩ →
      db.lookupRead roomKey = none →
      Steps checks db (.read h) (db.setHandler h task .missed) []
  | writeFound {h task room} : db.handlers[h]? = some ⟨task, .missed⟩ →
      db.rooms roomKey = some room → (db.roomAt room).isAbandoned = false →
      Steps checks db (.write h) (db.setHandler h task (.found room)) [.found h room]
  | writeNew {h task} : db.handlers[h]? = some ⟨task, .missed⟩ →
      (∀ room, db.rooms roomKey = some room → (db.roomAt room).isAbandoned) →
      Steps checks db (.write h)
        ((db.insertRoom roomKey).setHandler h task (.found db.heap.length))
        [.found h db.heap.length]
  | subscribed {h last room nextEvent} :
      db.handlers[h]? = some ⟨.subscribe last, .found room⟩ →
      nextEventOf checks last = .ok nextEvent →
      Steps checks db (.finish h)
        { (db.raise room).setHandler h (.subscribe last) .returned with
          subscriptions := db.subscriptions ++ [{ room, nextEvent, waiting := none, live := true }] }
        [.subscribed h room]
  | panicked {h last room p} : db.handlers[h]? = some ⟨.subscribe last, .found room⟩ →
      nextEventOf checks last = .error p →
      Steps checks db (.finish h)
        ((db.raise room).setHandler h (.subscribe last) (.panicked room)) []
  | published {h message room} : db.handlers[h]? = some ⟨.broadcast message, .found room⟩ →
      Steps checks db (.finish h)
        ((db.publish room message).setHandler h (.broadcast message) .returned)
        [.published h room message]
  | returned {k sub message nextEvent} : db.subscriptions[k]? = some sub → sub.live = true →
      sub.waiting = none →
      (db.roomAt sub.room).messages[sub.nextEvent.toNat]? = some message →
      addU16 checks sub.nextEvent 1 = .ok nextEvent →
      Steps checks db (.poll k) (db.setSubscription k { sub with nextEvent })
        [.returned k sub.nextEvent message]
  | overflowed {k sub message p} : db.subscriptions[k]? = some sub → sub.live = true →
      sub.waiting = none →
      (db.roomAt sub.room).messages[sub.nextEvent.toNat]? = some message →
      addU16 checks sub.nextEvent 1 = .error p →
      Steps checks db (.poll k) (db.closeSubscription k sub) []
  | awaits {k sub} : db.subscriptions[k]? = some sub → sub.live = true → sub.waiting = none →
      (db.roomAt sub.room).messages[sub.nextEvent.toNat]? = none →
      Steps checks db (.poll k) (db.setSubscription k { sub with waiting := some false }) []
  | woken {k sub} : db.subscriptions[k]? = some sub → sub.live = true →
      sub.waiting = some true →
      Steps checks db (.wake k) (db.setSubscription k { sub with waiting := none }) []
  | closed {k sub} : db.subscriptions[k]? = some sub → sub.live = true →
      Steps checks db (.close k) (db.closeSubscription k sub) []

theorem poll_steps (checks : Bool) {db : Db} {k : Nat} {sub : Subscription}
    (hsub : db.subscriptions[k]? = some sub) (hlive : sub.live = true)
    (hwait : sub.waiting = none) :
    Steps checks db (.poll k) (db.poll checks k sub).1 (db.poll checks k sub).2 := by
  unfold poll
  split
  · rename_i hmsg
    split
    · exact .returned hsub hlive hwait hmsg ‹_›
    · exact .overflowed hsub hlive hwait hmsg ‹_›
  · exact .awaits hsub hlive hwait ‹_›

theorem step_cases {checks : Bool} {db t : Db} {e : Event} {o : List Obs}
    (h : step checks db e = some (t, o)) : Steps checks db e t o := by
  cases e with
  | request task =>
      cases h
      exact .request task
  | read h' =>
      simp only [step] at h
      split at h
      · rename_i task hget
        cases hr : db.lookupRead roomKey with
        | none =>
            rw [hr] at h
            cases h
            exact .readMissed hget hr
        | some room =>
            rw [hr] at h
            cases h
            exact .readFound hget hr
      · cases h
  | write h' =>
      simp only [step] at h
      split at h
      · rename_i task hget
        unfold lookupWrite at h
        cases hr : db.rooms roomKey with
        | none =>
            rw [hr] at h
            cases h
            exact .writeNew hget (by simp [hr])
        | some room =>
            rw [hr] at h
            by_cases hab : (db.roomAt room).isAbandoned
            · simp only [if_pos hab] at h
              cases h
              refine .writeNew hget fun room' hroom' => ?_
              cases hr.symm.trans hroom'
              exact hab
            · simp only [if_neg hab] at h
              cases h
              exact .writeFound hget hr (by simpa using hab)
      · cases h
  | finish h' =>
      simp only [step] at h
      split at h
      · rename_i last room hget
        split at h
        · rename_i hnext
          cases h
          exact .subscribed hget hnext
        · rename_i hnext
          cases h
          exact .panicked hget hnext
      · rename_i hget
        cases h
        exact .published hget
      · cases h
  | poll k =>
      simp only [step] at h
      split at h
      · rename_i hsub
        split at h
        · rename_i hlive
          have hpoll := poll_steps checks hsub hlive.1 hlive.2
          rwa [Option.some.inj h] at hpoll
        · cases h
      · cases h
  | wake k =>
      simp only [step] at h
      split at h
      · rename_i hsub
        split at h
        · rename_i hlive
          cases h
          exact .woken hsub hlive.1 hlive.2
        · cases h
      · cases h
  | close k =>
      simp only [step] at h
      split at h
      · rename_i hsub
        split at h
        · rename_i hlive
          cases h
          exact .closed hsub hlive
        · cases h
      · cases h

end Db

end MpcServer.Messenger

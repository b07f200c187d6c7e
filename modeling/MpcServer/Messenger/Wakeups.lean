import MpcServer.Lib.RwLock
import MpcServer.Messenger.LiveRoom

/-!
# Wake-ups

One room, seen closely: `publish` and the loop of `next` statement by
statement, any number of each, in any order the lock admits. A future of
`notified()` hears every `notify_waiters` after its creation, polled or not.
A subscription creates it under the read guard, and a publisher notifies under
the write guard; so between the look at the history and the creation of the
future nothing is published.
-/

namespace MpcServer.Messenger.Wakeups

open Rust Machine

/-- Where a call of `publish` stands: before `write().await`, behind it, behind
`push`, behind `notify_waiters`, at its end. -/
inductive Publishing
  | waiting
  | locked
  | pushed
  | notified
  | returned
  deriving DecidableEq, Repr

/-- A call of `publish`, and how far it has got. -/
structure Publisher where
  message : String
  progress : Publishing
  deriving DecidableEq, Repr

/-- Where a loop of `next` stands: before `read().await`, behind it, behind
`get` with a text or without one, behind `notified()`, at `notification.await`.
The flags tell whether the future has been notified. -/
inductive Reading
  | waiting
  | locked
  | returning
  | missed
  | armed (notified : Bool)
  | blocked (notified : Bool)
  | gone
  deriving DecidableEq, Repr

/-- A loop of `next`, and how far it has got. -/
structure Subscription where
  nextEvent : UInt16
  progress : Reading
  deriving DecidableEq, Repr

namespace Publishing

/-- The call holds the write guard. -/
def Holds : Publishing → Bool
  | locked | pushed | notified => true
  | waiting | returned => false

end Publishing

namespace Reading

/-- The loop holds the read guard. -/
def Holds : Reading → Bool
  | locked | returning | missed | armed _ => true
  | waiting | blocked _ | gone => false

/-- `notify_waiters` reaches every future there is. -/
def notify : Reading → Reading
  | armed _ => armed true
  | blocked _ => blocked true
  | r => r

/-- The loop has found no text and is not to be woken. -/
def Unwoken : Reading → Bool
  | missed | armed false | blocked false => true
  | _ => false

theorem holds_notify (r : Reading) : r.notify.Holds = r.Holds := by cases r <;> rfl

end Reading

/-- A room with its lock and everybody who uses it. -/
structure Room where
  messages : RwLock (List String)
  publishers : List Publisher
  subscriptions : List Subscription

/-- One statement of one of them. -/
inductive Event
  | publish (message : String)
  | acquireWrite (p : Nat)
  | push (p : Nat)
  | notify (p : Nat)
  | releaseWrite (p : Nat)
  | subscribe (nextEvent : UInt16)
  | acquireRead (k : Nat)
  | look (k : Nat)
  | leave (k : Nat)
  | arm (k : Nat)
  | releaseRead (k : Nat)
  | wake (k : Nat)
  | close (k : Nat)
  deriving DecidableEq, Repr

/-- What `next` of the `k`-th subscription returns. -/
structure Returned where
  k : Nat
  id : UInt16
  message : String
  deriving DecidableEq, Repr

namespace Room

/-- A room as it is created. -/
def empty : Room := { messages := .new [], publishers := [], subscriptions := [] }

/-- The publisher gets on. -/
def setPublisher (room : Room) (p : Nat) (message : String) (progress : Publishing) : Room :=
  { room with publishers := room.publishers.set p { message, progress } }

/-- The loop gets on. -/
def setSubscription (room : Room) (k : Nat) (nextEvent : UInt16) (progress : Reading) : Room :=
  { room with subscriptions := room.subscriptions.set k { nextEvent, progress } }

/-- The lock is taken or let go. -/
def withLock (room : Room) (messages : RwLock (List String)) : Room := { room with messages }

/-- `history.get(..)` and what follows it up to the next `await` or guard. An
increment that overflows unwinds, and drops the guard. -/
def look (checks : Bool) (room : Room) (k : Nat) (nextEvent : UInt16) : Room × List Returned :=
  match room.messages.value[nextEvent.toNat]? with
  | some message =>
      match addU16 checks nextEvent 1 with
      | .ok next => (room.setSubscription k next .returning, [⟨k, nextEvent, message⟩])
      | .error _ =>
          ((room.withLock room.messages.releaseRead).setSubscription k nextEvent .gone, [])
  | none => (room.setSubscription k nextEvent .missed, [])

/-- One statement. -/
def step (checks : Bool) : Step Room Event Returned := fun room e =>
  match e with
  | .publish message =>
      some ({ room with publishers := room.publishers ++ [{ message, progress := .waiting }] }, [])
  | .acquireWrite p =>
      match room.publishers[p]?, room.messages.acquireWrite with
      | some ⟨message, .waiting⟩, some messages =>
          some ((room.withLock messages).setPublisher p message .locked, [])
      | _, _ => none
  | .push p =>
      match room.publishers[p]? with
      | some ⟨message, .locked⟩ =>
          some ((room.withLock (room.messages.update (· ++ [message]))).setPublisher p message
            .pushed, [])
      | _ => none
  | .notify p =>
      match room.publishers[p]? with
      | some ⟨message, .pushed⟩ =>
          some (({ room with
            subscriptions := room.subscriptions.map fun sub =>
              { sub with progress := sub.progress.notify } } : Room).setPublisher p message
                .notified, [])
      | _ => none
  | .releaseWrite p =>
      match room.publishers[p]? with
      | some ⟨message, .notified⟩ =>
          some ((room.withLock room.messages.releaseWrite).setPublisher p message .returned, [])
      | _ => none
  | .subscribe nextEvent =>
      some ({ room with
        subscriptions := room.subscriptions ++ [{ nextEvent, progress := .waiting }] }, [])
  | .acquireRead k =>
      match room.subscriptions[k]?, room.messages.acquireRead with
      | some ⟨nextEvent, .waiting⟩, some messages =>
          some ((room.withLock messages).setSubscription k nextEvent .locked, [])
      | _, _ => none
  | .look k =>
      match room.subscriptions[k]? with
      | some ⟨nextEvent, .locked⟩ => some (room.look checks k nextEvent)
      | _ => none
  | .leave k =>
      match room.subscriptions[k]? with
      | some ⟨nextEvent, .returning⟩ =>
          some ((room.withLock room.messages.releaseRead).setSubscription k nextEvent .waiting, [])
      | _ => none
  | .arm k =>
      match room.subscriptions[k]? with
      | some ⟨nextEvent, .missed⟩ => some (room.setSubscription k nextEvent (.armed false), [])
      | _ => none
  | .releaseRead k =>
      match room.subscriptions[k]? with
      | some ⟨nextEvent, .armed notified⟩ =>
          some ((room.withLock room.messages.releaseRead).setSubscription k nextEvent
            (.blocked notified), [])
      | _ => none
  | .wake k =>
      match room.subscriptions[k]? with
      | some ⟨nextEvent, .blocked true⟩ => some (room.setSubscription k nextEvent .waiting, [])
      | _ => none
  | .close k =>
      match room.subscriptions[k]? with
      | some ⟨nextEvent, .waiting⟩ | some ⟨nextEvent, .blocked _⟩ =>
          some (room.setSubscription k nextEvent .gone, [])
      | _ => none

/-- **What a step can do.** -/
inductive Steps (checks : Bool) (room : Room) : Room → List Returned → Prop
  | called (message) : Steps checks room { room with
      publishers := room.publishers ++ [{ message, progress := .waiting }] } []
  | tookWrite {p message messages} : room.publishers[p]? = some ⟨message, .waiting⟩ →
      room.messages.acquireWrite = some messages →
      Steps checks room ((room.withLock messages).setPublisher p message .locked) []
  | pushed {p message} : room.publishers[p]? = some ⟨message, .locked⟩ →
      Steps checks room ((room.withLock (room.messages.update (· ++ [message]))).setPublisher p
        message .pushed) []
  | notified {p message} : room.publishers[p]? = some ⟨message, .pushed⟩ →
      Steps checks room (({ room with
        subscriptions := room.subscriptions.map fun sub =>
          { sub with progress := sub.progress.notify } } : Room).setPublisher p message
            .notified) []
  | releasedWrite {p message} : room.publishers[p]? = some ⟨message, .notified⟩ →
      Steps checks room ((room.withLock room.messages.releaseWrite).setPublisher p message
        .returned) []
  | subscribed (nextEvent) : Steps checks room { room with
      subscriptions := room.subscriptions ++ [{ nextEvent, progress := .waiting }] } []
  | tookRead {k nextEvent messages} : room.subscriptions[k]? = some ⟨nextEvent, .waiting⟩ →
      room.messages.acquireRead = some messages →
      Steps checks room ((room.withLock messages).setSubscription k nextEvent .locked) []
  | found {k nextEvent next message} : room.subscriptions[k]? = some ⟨nextEvent, .locked⟩ →
      Steps checks room (room.setSubscription k next .returning) [⟨k, nextEvent, message⟩]
  | missed {k nextEvent} : room.subscriptions[k]? = some ⟨nextEvent, .locked⟩ →
      room.messages.value[nextEvent.toNat]? = none →
      Steps checks room (room.setSubscription k nextEvent .missed) []
  | releasedRead {k nextEvent r r'} : room.subscriptions[k]? = some ⟨nextEvent, r⟩ →
      r.Holds = true → r'.Holds = false → (r'.Unwoken = true → r.Unwoken = true) →
      Steps checks room ((room.withLock room.messages.releaseRead).setSubscription k nextEvent r')
        []
  | moved {k nextEvent r r'} : room.subscriptions[k]? = some ⟨nextEvent, r⟩ →
      r'.Holds = r.Holds → (r'.Unwoken = true → r.Unwoken = true) →
      Steps checks room (room.setSubscription k nextEvent r') []

theorem step_cases {checks : Bool} {room t : Room} {e : Event} {o : List Returned}
    (h : step checks room e = some (t, o)) : Steps checks room t o := by
  cases e with
  | publish message =>
      cases h
      exact .called message
  | acquireWrite p =>
      simp only [step] at h
      split at h
      · cases h
        exact .tookWrite ‹_› ‹_›
      · cases h
  | push p =>
      simp only [step] at h
      split at h
      · rename_i hget
        cases h
        exact .pushed hget
      · cases h
  | notify p =>
      simp only [step] at h
      split at h
      · rename_i hget
        cases h
        exact .notified hget
      · cases h
  | releaseWrite p =>
      simp only [step] at h
      split at h
      · rename_i hget
        cases h
        exact .releasedWrite hget
      · cases h
  | subscribe nextEvent =>
      cases h
      exact .subscribed nextEvent
  | acquireRead k =>
      simp only [step] at h
      split at h
      · cases h
        exact .tookRead ‹_› ‹_›
      · cases h
  | look k =>
      simp only [step] at h
      split at h
      · rename_i hget
        simp only [look] at h
        split at h
        · split at h
          · cases h
            exact .found hget
          · cases h
            exact .releasedRead hget rfl rfl (by rintro ⟨⟩)
        · cases h
          exact .missed hget ‹_›
      · cases h
  | leave k =>
      simp only [step] at h
      split at h
      · rename_i hget
        cases h
        exact .releasedRead hget rfl rfl (by rintro ⟨⟩)
      · cases h
  | arm k =>
      simp only [step] at h
      split at h
      · rename_i hget
        cases h
        exact .moved hget rfl fun _ => rfl
      · cases h
  | releaseRead k =>
      simp only [step] at h
      split at h
      · rename_i notified hget
        cases h
        exact .releasedRead hget rfl rfl (by cases notified <;> exact id)
      · cases h
  | wake k =>
      simp only [step] at h
      split at h
      · rename_i hget
        cases h
        exact .moved hget rfl (by rintro ⟨⟩)
      · cases h
  | close k =>
      simp only [step] at h
      split at h
      · rename_i hget
        cases h
        exact .moved hget rfl (by rintro ⟨⟩)
      · rename_i hget
        cases h
        exact .moved hget rfl (by rintro ⟨⟩)
      · cases h

/-! ## The lock and its guards -/

/-- How many loops hold the lock. -/
def readGuards (room : Room) : Nat := room.subscriptions.countP (·.progress.Holds)

/-- How many publishers hold the lock. -/
def writeGuards (room : Room) : Nat := room.publishers.countP (·.progress.Holds)

/-- The lock counts the guards, and a loop that is not to be woken has nothing
to read but what a publisher that holds the lock has not announced yet. -/
structure Sound (room : Room) : Prop where
  readers : room.messages.readers = room.readGuards
  writer : room.writeGuards = if room.messages.writing then 1 else 0
  unwoken : ∀ sub ∈ room.subscriptions, sub.progress.Unwoken = true →
    room.messages.value[sub.nextEvent.toNat]? = none ∨
      ∃ p ∈ room.publishers, p.progress = .pushed

theorem Sound.empty : Sound empty where
  readers := rfl
  writer := rfl
  unwoken _ h := by cases h

section
variable {checks : Bool} {room t : Room} {o : List Returned} {p k : Nat} {message : String}

theorem Sound.writing (hs : Sound room) {x : Publisher} (hx : x ∈ room.publishers)
    (hholds : x.progress.Holds = true) : room.messages.writing = true := by
  have hpos : 0 < room.writeGuards :=
    List.countP_pos_iff.mpr ⟨x, hx, hholds⟩
  rw [hs.writer] at hpos
  split at hpos
  · assumption
  · omega

/-- A loop that holds a guard keeps every publisher out. -/
theorem Sound.nobody_writes (hs : Sound room) {sub : Subscription}
    (hsub : sub ∈ room.subscriptions) (hholds : sub.progress.Holds = true) {x : Publisher}
    (hx : x ∈ room.publishers) : x.progress.Holds = false := by
  by_contra hnot
  have hnone := room.messages.excludes (hs.writing hx (by simpa using hnot))
  have hpos : 0 < room.readGuards :=
    List.countP_pos_iff.mpr ⟨sub, hsub, hholds⟩
  have := hs.readers
  omega

theorem countP_setPublisher {x : Publisher} (hget : room.publishers[p]? = some x)
    (message : String) (progress : Publishing) :
    (room.setPublisher p message progress).writeGuards +
        (if x.progress.Holds then 1 else 0) =
      room.writeGuards + if progress.Holds then 1 else 0 :=
  Db.countP_set_add hget _

theorem countP_setSubscription {sub : Subscription} (hget : room.subscriptions[k]? = some sub)
    (nextEvent : UInt16) (progress : Reading) :
    (room.setSubscription k nextEvent progress).readGuards +
        (if sub.progress.Holds then 1 else 0) =
      room.readGuards + if progress.Holds then 1 else 0 :=
  Db.countP_set_add hget _

/-- A publisher that moves without having pushed leaves what others pushed. -/
theorem pushed_of_set {x : Publisher} (hget : room.publishers[p]? = some x)
    (hx : x.progress ≠ .pushed) (message : String) (progress : Publishing)
    (h : ∃ y ∈ room.publishers, y.progress = .pushed) :
    ∃ y ∈ (room.setPublisher p message progress).publishers, y.progress = .pushed := by
  obtain ⟨y, hy, hpushed⟩ := h
  obtain ⟨i, hi⟩ := List.getElem?_of_mem hy
  have hne : p ≠ i := by
    rintro rfl
    cases hget.symm.trans hi
    exact hx hpushed
  exact ⟨y, List.mem_of_getElem? ((List.getElem?_set_ne hne).trans hi), hpushed⟩

/-- A subscription that moves and does not begin to wait. -/
theorem Sound.unwoken_set (hs : Sound room) {sub : Subscription}
    (hget : room.subscriptions[k]? = some sub) {nextEvent : UInt16} {progress : Reading}
    (hsame : progress.Unwoken = true → sub.progress.Unwoken = true ∧ nextEvent = sub.nextEvent) :
    ∀ s ∈ (room.setSubscription k nextEvent progress).subscriptions,
      s.progress.Unwoken = true → room.messages.value[s.nextEvent.toNat]? = none ∨
        ∃ p ∈ room.publishers, p.progress = .pushed := by
  intro s hsub hun
  rcases List.mem_or_eq_of_mem_set hsub with hsub | rfl
  · exact hs.unwoken s hsub hun
  · obtain ⟨hold, rfl⟩ := hsame hun
    exact hs.unwoken sub (List.mem_of_getElem? hget) hold

theorem Sound.step (hs : Sound room) (h : Steps checks room t o) : Sound t := by
  have hreaders := hs.readers
  have hwriter := hs.writer
  cases h with
  | called message =>
      refine ⟨hreaders, ?_, fun sub hsub hun => (hs.unwoken sub hsub hun).imp_right ?_⟩
      · simpa [writeGuards, List.countP_append, Publishing.Holds] using hwriter
      · rintro ⟨x, hx, hpushed⟩
        exact ⟨x, List.mem_append_left _ hx, hpushed⟩
  | @tookWrite p message messages hget hlock =>
      -- the lock was free, so nobody else holds a guard
      obtain ⟨hfree, hnone, hvalue, hnone', hwriting⟩ := RwLock.acquireWrite_eq_some hlock
      have hcount := countP_setPublisher hget message .locked
      refine ⟨?_, ?_, fun sub hsub hun => ?_⟩
      · show messages.readers = room.readGuards
        omega
      · show (room.setPublisher p message .locked).writeGuards = _
        rw [hfree] at hwriter
        simp only [Publishing.Holds, Bool.false_eq_true, if_false, if_true] at hcount hwriter
        show _ = if messages.writing then 1 else 0
        rw [hwriting, if_pos rfl]
        omega
      · show messages.value[sub.nextEvent.toNat]? = none ∨ _
        rw [hvalue]
        exact (hs.unwoken sub hsub hun).imp_right (pushed_of_set hget (by simp) _ _)
  | @pushed p message hget =>
      have hcount := countP_setPublisher hget message .pushed
      -- whoever is asleep from here on is woken by this publisher
      refine ⟨hreaders, ?_, fun sub hsub hun => .inr ?_⟩
      · show (room.setPublisher p message .pushed).writeGuards = _
        simp only [Publishing.Holds, if_true] at hcount
        exact (Nat.add_right_cancel hcount).trans hwriter
      · exact ⟨_, List.mem_set (List.getElem?_eq_some_iff.mp hget).1 _, rfl⟩
  | @notified p message hget =>
      have hcount := countP_setPublisher hget message .notified
      refine ⟨?_, ?_, fun sub hsub hun => ?_⟩
      · show room.messages.readers = (room.subscriptions.map fun sub =>
          ({ sub with progress := sub.progress.notify } : Subscription)).countP (·.progress.Holds)
        rw [List.countP_map, hreaders, readGuards]
        congr 1
        funext sub
        exact (Reading.holds_notify sub.progress).symm
      · show (room.setPublisher p message .notified).writeGuards = _
        simp only [Publishing.Holds, if_true] at hcount
        exact (Nat.add_right_cancel hcount).trans hwriter
      · -- who is unwoken still holds a read guard, and the publisher the lock
        obtain ⟨s, hs', rfl⟩ := List.mem_map.mp hsub
        have hholds : s.progress.Holds = true := by
          cases hp : s.progress <;> simp_all [Reading.notify, Reading.Unwoken, Reading.Holds]
        have hnot := hs.nobody_writes hs' hholds (List.mem_of_getElem? hget)
        cases hnot
  | @releasedWrite p message hget =>
      have hcount := countP_setPublisher hget message .returned
      have hwriting := hs.writing (List.mem_of_getElem? hget) rfl
      refine ⟨hreaders, ?_, fun sub hsub hun =>
        (hs.unwoken sub hsub hun).imp_right (pushed_of_set hget (by simp) _ _)⟩
      show (room.setPublisher p message .returned).writeGuards = 0
      rw [hwriting] at hwriter
      simp only [Publishing.Holds, Bool.false_eq_true, if_false, if_true] at hcount hwriter
      omega
  | subscribed nextEvent =>
      refine ⟨?_, hwriter, fun sub hsub hun => ?_⟩
      · simpa [readGuards, List.countP_append, Reading.Holds] using hreaders
      · rcases List.mem_append.mp hsub with hsub | hsub
        · exact hs.unwoken sub hsub hun
        · obtain rfl := List.mem_singleton.mp hsub
          cases hun
  | @tookRead k nextEvent messages hget hlock =>
      obtain ⟨hfree, hvalue, hmore, hfree'⟩ := RwLock.acquireRead_eq_some hlock
      have hcount := countP_setSubscription hget nextEvent .locked
      refine ⟨?_, ?_, ?_⟩
      · show messages.readers =
          (room.setSubscription k nextEvent .locked).readGuards
        simp only [Reading.Holds, Bool.false_eq_true, if_false, if_true] at hcount
        omega
      · show room.writeGuards = if messages.writing then 1 else 0
        rw [hwriter, hfree, hfree']
      · intro s hsub hun
        show messages.value[s.nextEvent.toNat]? = none ∨ _
        rw [hvalue]
        exact hs.unwoken_set hget (by rintro ⟨⟩) s hsub hun
  | @found k nextEvent next message hget =>
      have hcount := countP_setSubscription hget next .returning
      refine ⟨?_, hwriter, hs.unwoken_set hget (by rintro ⟨⟩)⟩
      show room.messages.readers =
        (room.setSubscription k next .returning).readGuards
      simp only [Reading.Holds, if_true] at hcount
      omega
  | @missed k nextEvent hget hnone =>
      have hcount := countP_setSubscription hget nextEvent .missed
      refine ⟨?_, hwriter, fun sub hsub hun => ?_⟩
      · show room.messages.readers =
          (room.setSubscription k nextEvent .missed).readGuards
        simp only [Reading.Holds, if_true] at hcount
        omega
      · rcases List.mem_or_eq_of_mem_set hsub with hsub | rfl
        · exact hs.unwoken sub hsub hun
        · -- it has just seen that there is no text, and holds the guard still
          exact .inl hnone
  | @releasedRead k nextEvent r r' hget hr hr' hun =>
      have hcount := countP_setSubscription hget nextEvent r'
      refine ⟨?_, hwriter, hs.unwoken_set hget fun h => ⟨hun h, rfl⟩⟩
      show room.messages.readers - 1 =
        (room.setSubscription k nextEvent r').readGuards
      simp only [hr, hr', Bool.false_eq_true, if_false, if_true] at hcount
      omega
  | @moved k nextEvent r r' hget hsame hun =>
      have hcount := countP_setSubscription hget nextEvent r'
      refine ⟨?_, hwriter, hs.unwoken_set hget fun h => ⟨hun h, rfl⟩⟩
      show room.messages.readers =
        (room.setSubscription k nextEvent r').readGuards
      simp only [hsame] at hcount
      omega

end

theorem sound_of_run {checks : Bool} {os : List Returned} {room : Room}
    (hrun : Run (step checks) anyStep empty os room) : Sound room :=
  hrun.invariant (fun _ room => Sound room) .empty fun _ h _ hs => h.step (step_cases hs)

/-- **No wake-up is lost.** Whatever the order of the statements, a loop that
is blocked on its future with no wake-up delivered to it has no text at its
position; or a publisher has pushed and holds the lock still, and its next
statement wakes the loop. -/
theorem no_text_of_blocked {checks : Bool} {os : List Returned} {room : Room}
    (hrun : Run (step checks) anyStep empty os room) {k : Nat} {nextEvent : UInt16}
    (hblocked : room.subscriptions[k]? = some ⟨nextEvent, .blocked false⟩) :
    room.messages.value[nextEvent.toNat]? = none ∨
      ∃ p message t, room.messages.writing = true ∧
        room.publishers[p]? = some ⟨message, .pushed⟩ ∧
        step checks room (.notify p) = some (t, []) ∧
        t.subscriptions[k]? = some ⟨nextEvent, .blocked true⟩ := by
  have hs := sound_of_run hrun
  refine (hs.unwoken _ (List.mem_of_getElem? hblocked) rfl).imp_right ?_
  rintro ⟨⟨message, progress⟩, hx, hpushed⟩
  obtain rfl : progress = .pushed := hpushed
  obtain ⟨p, hp⟩ := List.getElem?_of_mem hx
  have hnotify : step checks room (.notify p) = some (({ room with
      subscriptions := room.subscriptions.map fun sub =>
        { sub with progress := sub.progress.notify } } : Room).setPublisher p message
          .notified, []) := by
    simp [step, hp]
  refine ⟨p, message, _, hs.writing hx rfl, hp, hnotify, ?_⟩
  show (room.subscriptions.map _)[k]? = _
  rw [List.getElem?_map, hblocked]
  rfl

/-- A loop has read the first text and sleeps, and a publisher takes the lock behind it. -/
def sleepsAtOne : List Event :=
  [.subscribe 0, .publish "hello", .acquireWrite 0, .push 0, .notify 0, .releaseWrite 0,
    .acquireRead 0, .look 0, .leave 0, .acquireRead 0, .look 0, .arm 0, .releaseRead 0,
    .publish "world", .acquireWrite 1]

/-- There is no second text as long as the publisher has not pushed, and from then on it is
this publisher that wakes the loop. -/
theorem no_text_of_blocked_second :
    (∃ os room, Run (step true) anyStep empty os room ∧
      room.subscriptions[0]? = some ⟨1, .blocked false⟩ ∧ room.messages.value = ["hello"] ∧
      room.publishers[1]? = some ⟨"world", .locked⟩ ∧
      (room.messages.value[(1 : UInt16).toNat]? = none ∨
        ∃ p message t, room.messages.writing = true ∧
          room.publishers[p]? = some ⟨message, .pushed⟩ ∧
          step true room (.notify p) = some (t, []) ∧
          t.subscriptions[0]? = some ⟨1, .blocked true⟩)) ∧
    ∃ os room, Run (step true) anyStep empty os room ∧
      room.subscriptions[0]? = some ⟨1, .blocked false⟩ ∧
      room.messages.value = ["hello", "world"] ∧
      ∃ p message t, room.messages.writing = true ∧
        room.publishers[p]? = some ⟨message, .pushed⟩ ∧
        step true room (.notify p) = some (t, []) ∧
        t.subscriptions[0]? = some ⟨1, .blocked true⟩ := by
  constructor
  · obtain ⟨os, room, hrun, hend⟩ := Run.ofTest (step true) anyStep empty sleepsAtOne
      (fun r => decide (r.1.subscriptions[0]? = some (⟨1, .blocked false⟩ : Subscription) ∧
        r.1.messages.value = ["hello"] ∧
        r.1.publishers[1]? = some (⟨"world", .locked⟩ : Publisher)))
      (by decide) (admits_anyStep _ _)
    obtain ⟨hblocked, hvalue, hlocked⟩ := of_decide_eq_true hend
    exact ⟨os, room, hrun, hblocked, hvalue, hlocked, no_text_of_blocked hrun hblocked⟩
  · obtain ⟨os, room, hrun, hend⟩ := Run.ofTest (step true) anyStep empty
      (sleepsAtOne ++ [.push 1])
      (fun r => decide (r.1.subscriptions[0]? = some (⟨1, .blocked false⟩ : Subscription) ∧
        r.1.messages.value = ["hello", "world"])) (by decide) (admits_anyStep _ _)
    obtain ⟨hblocked, hvalue⟩ := of_decide_eq_true hend
    refine ⟨os, room, hrun, hblocked, hvalue, ?_⟩
    refine (no_text_of_blocked hrun hblocked).resolve_left fun hnone => ?_
    rw [hvalue] at hnone
    cases hnone

/-- Between `push` and `notify_waiters` the text is in the history, and the loop that waits
for it has not been woken yet. -/
theorem text_before_notify :
    ∃ os room, Run (step true) anyStep empty os room ∧
      room.subscriptions[0]? = some ⟨1, .blocked false⟩ ∧
      room.messages.value[(1 : UInt16).toNat]? = some "world" := by
  obtain ⟨os, room, hrun, hend⟩ := Run.ofTest (step true) anyStep empty
    (sleepsAtOne ++ [.push 1])
    (fun r => decide (r.1.subscriptions[0]? = some (⟨1, .blocked false⟩ : Subscription) ∧
      r.1.messages.value[(1 : UInt16).toNat]? = some "world")) (by decide) (admits_anyStep _ _)
  obtain ⟨hblocked, htext⟩ := of_decide_eq_true hend
  exact ⟨os, room, hrun, hblocked, htext⟩

end Room

end MpcServer.Messenger.Wakeups

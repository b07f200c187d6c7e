import MpcServer.Lib.Feed
import MpcServer.Lib.Rest
import MpcServer.Lib.Tally
import MpcServer.Messenger.Wakeups

/-!
# The room as a log

To its publishers and subscribers the room is a log that is read by position.
Of the statements of `publish` and `next` only two are seen there: the `push`
under the write guard, and the look at the history that finds a text. Left
alone, the room comes to rest, and then nobody waits for anything that is
there.
-/

namespace MpcServer.Messenger.Wakeups.Room

open Rust Machine

/-! ## What is seen of the room -/

/-- The log behind a room: its history, and the positions of its subscriptions. -/
def feed (room : Room) : Feed String :=
  { entries := room.messages.value
    positions := room.subscriptions.map (·.nextEvent.toNat) }

/-- A value that is returned, as a reading of the log. -/
def readOf (r : Returned) : Option (Feed.Read String) :=
  some { k := r.k, position := r.id.toNat, entry := r.message }

/-- No text is pushed to a room that holds `2 ^ 16 - 1` of them. -/
def KeepsCount (room : Room) : Event → Prop
  | .push _ => room.messages.value.length < 2 ^ 16 - 1
  | _ => True

instance (room : Room) : (e : Event) → Decidable (KeepsCount room e)
  | .push _ => inferInstanceAs (Decidable (room.messages.value.length < 2 ^ 16 - 1))
  | .publish _ | .acquireWrite _ | .notify _ | .releaseWrite _ | .subscribe _ | .acquireRead _
  | .look _ | .leave _ | .arm _ | .releaseRead _ | .wake _ | .close _ => isTrue trivial

/-- **What each statement does**, to the letter. -/
inductive Does (checks : Bool) (room : Room) : Event → Room → List Returned → Prop
  | called (message) : Does checks room (.publish message)
      { room with publishers := room.publishers ++ [{ message, progress := .waiting }] } []
  | tookWrite {p message messages} : room.publishers[p]? = some ⟨message, .waiting⟩ →
      room.messages.acquireWrite = some messages →
      Does checks room (.acquireWrite p)
        ((room.withLock messages).setPublisher p message .locked) []
  | pushed {p message} : room.publishers[p]? = some ⟨message, .locked⟩ →
      Does checks room (.push p)
        ((room.withLock (room.messages.update (· ++ [message]))).setPublisher p message .pushed) []
  | notified {p message} : room.publishers[p]? = some ⟨message, .pushed⟩ →
      Does checks room (.notify p)
        (({ room with subscriptions := room.subscriptions.map fun sub =>
              { sub with progress := sub.progress.notify } } : Room).setPublisher p message
          .notified) []
  | releasedWrite {p message} : room.publishers[p]? = some ⟨message, .notified⟩ →
      Does checks room (.releaseWrite p)
        ((room.withLock room.messages.releaseWrite).setPublisher p message .returned) []
  | subscribed (nextEvent) : Does checks room (.subscribe nextEvent)
      { room with subscriptions := room.subscriptions ++ [{ nextEvent, progress := .waiting }] } []
  | tookRead {k nextEvent messages} : room.subscriptions[k]? = some ⟨nextEvent, .waiting⟩ →
      room.messages.acquireRead = some messages →
      Does checks room (.acquireRead k)
        ((room.withLock messages).setSubscription k nextEvent .locked) []
  | found {k nextEvent next message} : room.subscriptions[k]? = some ⟨nextEvent, .locked⟩ →
      room.messages.value[nextEvent.toNat]? = some message →
      addU16 checks nextEvent 1 = .ok next →
      Does checks room (.look k) (room.setSubscription k next .returning) [⟨k, nextEvent, message⟩]
  | overflowed {k nextEvent message p} : room.subscriptions[k]? = some ⟨nextEvent, .locked⟩ →
      room.messages.value[nextEvent.toNat]? = some message →
      addU16 checks nextEvent 1 = .error p →
      Does checks room (.look k)
        ((room.withLock room.messages.releaseRead).setSubscription k nextEvent .gone) []
  | missed {k nextEvent} : room.subscriptions[k]? = some ⟨nextEvent, .locked⟩ →
      room.messages.value[nextEvent.toNat]? = none →
      Does checks room (.look k) (room.setSubscription k nextEvent .missed) []
  | left {k nextEvent} : room.subscriptions[k]? = some ⟨nextEvent, .returning⟩ →
      Does checks room (.leave k)
        ((room.withLock room.messages.releaseRead).setSubscription k nextEvent .waiting) []
  | armed {k nextEvent} : room.subscriptions[k]? = some ⟨nextEvent, .missed⟩ →
      Does checks room (.arm k) (room.setSubscription k nextEvent (.armed false)) []
  | releasedRead {k nextEvent notified} :
      room.subscriptions[k]? = some ⟨nextEvent, .armed notified⟩ →
      Does checks room (.releaseRead k)
        ((room.withLock room.messages.releaseRead).setSubscription k nextEvent
          (.blocked notified)) []
  | woken {k nextEvent} : room.subscriptions[k]? = some ⟨nextEvent, .blocked true⟩ →
      Does checks room (.wake k) (room.setSubscription k nextEvent .waiting) []
  | closed {k nextEvent r} : room.subscriptions[k]? = some ⟨nextEvent, r⟩ → r.Holds = false →
      Does checks room (.close k) (room.setSubscription k nextEvent .gone) []

section
variable {checks : Bool} {room t : Room} {e : Event} {o : List Returned} {k : Nat}

theorem does_of_step (h : step checks room e = some (t, o)) : Does checks room e t o := by
  cases e with
  | publish message =>
      cases h
      exact .called message
  | acquireWrite p =>
      simp only [step] at h
      split at h
      · cases h
        exact .tookWrite ‹_› ‹_›
      · cases h
  | push p =>
      simp only [step] at h
      split at h
      · cases h
        exact .pushed ‹_›
      · cases h
  | notify p =>
      simp only [step] at h
      split at h
      · cases h
        exact .notified ‹_›
      · cases h
  | releaseWrite p =>
      simp only [step] at h
      split at h
      · cases h
        exact .releasedWrite ‹_›
      · cases h
  | subscribe nextEvent =>
      cases h
      exact .subscribed nextEvent
  | acquireRead k =>
      simp only [step] at h
      split at h
      · cases h
        exact .tookRead ‹_› ‹_›
      · cases h
  | look k =>
      simp only [step, look] at h
      split at h
      · split at h
        · split at h
          · cases h
            exact .found ‹_› ‹_› ‹_›
          · cases h
            exact .overflowed ‹_› ‹_› ‹_›
        · cases h
          exact .missed ‹_› ‹_›
      · cases h
  | leave k =>
      simp only [step] at h
      split at h
      · cases h
        exact .left ‹_›
      · cases h
  | arm k =>
      simp only [step] at h
      split at h
      · cases h
        exact .armed ‹_›
      · cases h
  | releaseRead k =>
      simp only [step] at h
      split at h
      · cases h
        exact .releasedRead ‹_›
      · cases h
  | wake k =>
      simp only [step] at h
      split at h
      · cases h
        exact .woken ‹_›
      · cases h
  | close k =>
      simp only [step] at h
      split at h
      · cases h
        exact .closed ‹_› rfl
      · cases h
        exact .closed ‹_› rfl
      · cases h

@[simp] theorem feed_setPublisher (room : Room) (p : Nat) (message : String)
    (progress : Publishing) : (room.setPublisher p message progress).feed = room.feed := rfl

theorem feed_withLock {messages : RwLock (List String)}
    (h : messages.value = room.messages.value) : (room.withLock messages).feed = room.feed := by
  simp [feed, withLock, h]

theorem feed_setSubscription (room : Room) (k : Nat) (nextEvent : UInt16) (progress : Reading) :
    (room.setSubscription k nextEvent progress).feed =
      { room.feed with positions := room.feed.positions.set k nextEvent.toNat } := by
  simp [feed, setSubscription, List.map_set]

theorem positions_getElem? {nextEvent : UInt16} {r : Reading}
    (hget : room.subscriptions[k]? = some ⟨nextEvent, r⟩) :
    room.feed.positions[k]? = some nextEvent.toNat := by
  simp [feed, hget]

/-- A subscription that moves and stays at its position is not seen. -/
theorem feed_moved {room : Room} {nextEvent : UInt16} {r : Reading}
    (hget : room.subscriptions[k]? = some ⟨nextEvent, r⟩) (progress : Reading) :
    (room.setSubscription k nextEvent progress).feed = room.feed := by
  obtain ⟨hlt, hval⟩ := List.getElem?_eq_some_iff.mp (positions_getElem? hget)
  rw [feed_setSubscription, ← hval, List.set_getElem_self]

theorem feed_released {nextEvent : UInt16} {r : Reading}
    (hget : room.subscriptions[k]? = some ⟨nextEvent, r⟩) (progress : Reading) :
    ((room.withLock room.messages.releaseRead).setSubscription k nextEvent progress).feed =
      room.feed := by
  have hmoved : ((room.withLock room.messages.releaseRead).setSubscription k nextEvent
      progress).feed = (room.withLock room.messages.releaseRead).feed := feed_moved hget progress
  exact hmoved

/-- Inside the count a position can be raised. -/
theorem raise_of_found (checks : Bool) {nextEvent : UInt16} {message : String}
    (hcount : room.messages.value.length ≤ 2 ^ 16 - 1)
    (hmessage : room.messages.value[nextEvent.toNat]? = some message) :
    ∃ next, addU16 checks nextEvent 1 = .ok next ∧ next.toNat = nextEvent.toNat + 1 := by
  obtain ⟨hlt, -⟩ := List.getElem?_eq_some_iff.mp hmessage
  have hone : (1 : UInt16).toNat = 1 := rfl
  have hadd : addU16 checks nextEvent 1 = .ok (nextEvent + 1) := addU16_of_lt (by omega)
  exact ⟨_, hadd, toNat_addU16 hadd (by omega)⟩

/-- A step of the room is one of the log, or it is not seen. -/
theorem Does.projects (hcount : room.messages.value.length ≤ 2 ^ 16 - 1)
    (h : Does checks room e t o) : Projects Feed.step anyStep feed readOf room t o := by
  cases h with
  | called _ => exact .inl ⟨rfl, rfl⟩
  | tookWrite _ hlock =>
      exact .inl ⟨feed_withLock (RwLock.acquireWrite_eq_some hlock).2.2.1, rfl⟩
  | @pushed p message _ => exact .inr ⟨.append message, trivial, rfl⟩
  | notified _ =>
      refine .inl ⟨?_, rfl⟩
      simp [feed, setPublisher, Function.comp_def]
  | releasedWrite _ => exact .inl ⟨rfl, rfl⟩
  | subscribed nextEvent =>
      refine .inr ⟨.join nextEvent.toNat, trivial, ?_⟩
      simp [Feed.step, feed]
  | @tookRead k nextEvent messages hget hlock =>
      have hget' : (room.withLock messages).subscriptions[k]? = some ⟨nextEvent, .waiting⟩ := hget
      have hvalue := (RwLock.acquireRead_eq_some hlock).2.1
      exact .inl ⟨(feed_moved hget' .locked).trans (feed_withLock hvalue), rfl⟩
  | @found k nextEvent next message hget hmessage hadd =>
      obtain ⟨next', hadd', hnext⟩ := raise_of_found checks hcount hmessage
      cases hadd.symm.trans hadd'
      refine .inr ⟨.read k, trivial, ?_⟩
      have hentry : room.feed.entries[nextEvent.toNat]? = some message := hmessage
      simp only [Feed.step, positions_getElem? hget, hentry, feed_setSubscription, hnext]
      rfl
  | overflowed _ hmessage hadd =>
      obtain ⟨next, hadd', -⟩ := raise_of_found checks hcount hmessage
      cases hadd.symm.trans hadd'
  | missed hget _ => exact .inl ⟨feed_moved hget _, rfl⟩
  | left hget => exact .inl ⟨feed_released hget _, rfl⟩
  | armed hget => exact .inl ⟨feed_moved hget _, rfl⟩
  | releasedRead hget => exact .inl ⟨feed_released hget _, rfl⟩
  | woken hget => exact .inl ⟨feed_moved hget _, rfl⟩
  | closed hget _ => exact .inl ⟨feed_moved hget _, rfl⟩

/-- Only `push` changes the history. -/
theorem Does.value (h : Does checks room e t o) : t.messages.value = room.messages.value ∨
    ∃ p message, e = .push p ∧ t.messages.value = room.messages.value ++ [message] := by
  cases h with
  | tookWrite _ hlock => exact .inl (RwLock.acquireWrite_eq_some hlock).2.2.1
  | pushed _ => exact .inr ⟨_, _, rfl, rfl⟩
  | tookRead _ hlock => exact .inl (RwLock.acquireRead_eq_some hlock).2.1
  | _ => exact .inl rfl

end

section
variable {checks : Bool} {room₀ room : Room} {os : List Returned}

theorem length_le_of_run (h₀ : room₀.messages.value.length ≤ 2 ^ 16 - 1)
    (hrun : Run (step checks) KeepsCount room₀ os room) :
    room.messages.value.length ≤ 2 ^ 16 - 1 := by
  refine hrun.invariant (fun _ room => room.messages.value.length ≤ 2 ^ 16 - 1) h₀ ?_
  intro os room e t o _ h hg hs
  rcases (does_of_step hs).value with hsame | ⟨p, message, rfl, hpushed⟩
  · rw [hsame]
    exact h
  · have hroom : room.messages.value.length < 2 ^ 16 - 1 := hg
    rw [hpushed, List.length_append, List.length_singleton]
    omega

/-- **The room is a log.** Whatever the order of the statements, as long as the history stays
below `2 ^ 16` texts: what is seen of a run of the room is a run of the log. -/
theorem feed_of_run (h₀ : room₀.messages.value.length ≤ 2 ^ 16 - 1)
    (hrun : Run (step checks) KeepsCount room₀ os room) :
    Run Feed.step anyStep room₀.feed (os.filterMap readOf) room.feed :=
  hrun.project fun hr _ hs => (does_of_step hs).projects (length_le_of_run h₀ hr)

/-- Two texts are published while one loop waits; it returns the first. -/
theorem feed_of_run_two : ∃ (os : List Returned) (room : Room),
    Run Feed.step anyStep empty.feed (os.filterMap readOf) room.feed ∧
      room.feed.entries = ["one", "two"] ∧ room.feed.positions = [1] := by
  obtain ⟨os, room, hrun, hend⟩ := Run.ofGuardedTest (step true) KeepsCount empty
    [.subscribe 0, .publish "one", .publish "two", .acquireWrite 0, .push 0, .notify 0,
      .releaseWrite 0, .acquireRead 0, .look 0, .leave 0, .acquireWrite 1, .push 1]
    (fun r => decide (r.1.feed.entries = ["one", "two"] ∧ r.1.feed.positions = [1])) (by decide)
  obtain ⟨hentries, hpositions⟩ := of_decide_eq_true hend
  exact ⟨os, room, feed_of_run (by decide) hrun, hentries, hpositions⟩

end

/-! ## Coming to rest -/

/-- The statements of the calls under way. Calls and hang-ups come from outside. -/
def Own : Event → Prop
  | .publish _ | .subscribe _ | .close _ => False
  | _ => True

/-- The statements a call of `publish` has before it. -/
def remaining (p : Publisher) : Nat :=
  match p.progress with
  | .waiting => 4
  | .locked => 3
  | .pushed => 2
  | .notified => 1
  | .returned => 0

/-- The texts a call of `publish` has not pushed yet. -/
def unpushed (p : Publisher) : Nat :=
  match p.progress with
  | .waiting | .locked => 1
  | _ => 0

/-- The length of the history once every call has pushed. -/
def texts (room : Room) : Nat :=
  room.messages.value.length + Tally.total unpushed room.publishers

/-- How far a loop of `next` is from its sleep. A look that finds nothing leads there, one
that finds a text leads back to the start. -/
def rank : Reading → Nat
  | .gone | .blocked false => 0
  | .armed false => 1
  | .missed => 2
  | .locked => 3
  | .waiting => 4
  | .returning | .blocked true => 5
  | .armed true => 6

/-- What a subscription can still do while `n` texts are to come before its eyes. -/
def effort (n : Nat) (sub : Subscription) : Nat :=
  3 * (n - sub.nextEvent.toNat) + rank sub.progress

/-- What the calls under way can still do. A publisher may wake everybody once. -/
def measure (room : Room) : Nat :=
  Tally.total remaining room.publishers * (1 + 5 * room.subscriptions.length) +
    Tally.total (effort room.texts) room.subscriptions

section
variable {checks : Bool} {room t : Room} {e : Event} {o : List Returned} {p k : Nat}

/-- A publisher gets a statement further. -/
theorem measure_publisher {x y : Publisher} (hget : room.publishers[p]? = some x)
    (hset : t.publishers = room.publishers.set p y) (hless : remaining y < remaining x)
    (htexts : t.texts = room.texts)
    (hlength : t.subscriptions.length = room.subscriptions.length)
    (hefforts : Tally.total (effort room.texts) t.subscriptions ≤
      Tally.total (effort room.texts) room.subscriptions + 5 * room.subscriptions.length) :
    t.measure < room.measure := by
  have htotal := Tally.total_set remaining hget y
  have hmul := Nat.mul_le_mul_right (1 + 5 * room.subscriptions.length)
    (show Tally.total remaining (room.publishers.set p y) + 1 ≤
      Tally.total remaining room.publishers by omega)
  rw [Nat.add_mul, Nat.one_mul] at hmul
  simp only [measure, hset, htexts, hlength]
  omega

/-- A subscription gets further, or goes round with a text more. -/
theorem measure_subscription {x y : Subscription} (hget : room.subscriptions[k]? = some x)
    (hset : t.subscriptions = room.subscriptions.set k y)
    (hpublishers : t.publishers = room.publishers) (hvalue : t.messages.value = room.messages.value)
    (hless : effort room.texts y < effort room.texts x) : t.measure < room.measure := by
  have htexts : t.texts = room.texts := by rw [texts, texts, hvalue, hpublishers]
  have htotal := Tally.total_set (effort room.texts) hget y
  simp only [measure, hset, htexts, hpublishers, List.length_set]
  omega

theorem texts_set {x y : Publisher} (hget : room.publishers[p]? = some x)
    (hset : t.publishers = room.publishers.set p y)
    (hlength : t.messages.value.length + unpushed y = room.messages.value.length + unpushed x) :
    t.texts = room.texts := by
  have htotal := Tally.total_set unpushed hget y
  simp only [texts, hset]
  omega

/-- Nobody publishes a text that was not about to be. -/
theorem Does.texts (h : Does checks room e t o) (hown : Own e) : t.texts = room.texts := by
  cases h with
  | called _ => cases hown
  | subscribed _ => cases hown
  | closed _ _ => cases hown
  | tookWrite hget hlock =>
      have hvalue := (RwLock.acquireWrite_eq_some hlock).2.2.1
      exact texts_set hget rfl (congrArg (List.length · + 1) hvalue)
  | pushed hget =>
      exact texts_set hget rfl (by simp [withLock, setPublisher, RwLock.update, unpushed])
  | notified hget => exact texts_set hget rfl rfl
  | releasedWrite hget => exact texts_set hget rfl rfl
  | tookRead _ hlock =>
      simp only [Room.texts, withLock, setSubscription, (RwLock.acquireRead_eq_some hlock).2.1]
  | _ => rfl

theorem effort_moved (n : Nat) (nextEvent : UInt16) {r r' : Reading} (h : rank r' < rank r) :
    effort n ⟨nextEvent, r'⟩ < effort n ⟨nextEvent, r⟩ :=
  Nat.add_lt_add_left h _

theorem effort_notify_le (n : Nat) (sub : Subscription) :
    effort n { sub with progress := sub.progress.notify } ≤ effort n sub + 5 := by
  have hrank : rank sub.progress.notify ≤ rank sub.progress + 5 := by
    cases sub.progress with
    | armed notified => cases notified <;> decide
    | blocked notified => cases notified <;> decide
    | _ => exact Nat.le_add_right _ _
  show 3 * (n - sub.nextEvent.toNat) + rank sub.progress.notify ≤
    3 * (n - sub.nextEvent.toNat) + rank sub.progress + 5
  omega

/-- Every statement of a call under way brings the end nearer. -/
theorem Does.lowers (hcount : room.texts ≤ 2 ^ 16 - 1) (h : Does checks room e t o)
    (hown : Own e) : t.measure < room.measure := by
  have htexts := h.texts hown
  cases h with
  | called _ => cases hown
  | subscribed _ => cases hown
  | closed _ _ => cases hown
  | tookWrite hget _ =>
      exact measure_publisher hget rfl (by simp [remaining]) htexts rfl (Nat.le_add_right _ _)
  | pushed hget =>
      exact measure_publisher hget rfl (by simp [remaining]) htexts rfl (Nat.le_add_right _ _)
  | notified hget =>
      exact measure_publisher hget rfl (by simp [remaining]) htexts (List.length_map _)
        (Tally.total_map_le (effort_notify_le _) _)
  | releasedWrite hget =>
      exact measure_publisher hget rfl (by simp [remaining]) htexts rfl (Nat.le_add_right _ _)
  | tookRead hget hlock =>
      exact measure_subscription hget rfl rfl (RwLock.acquireRead_eq_some hlock).2.1
        (effort_moved _ _ (by decide))
  | @found k nextEvent next message hget hmessage hadd =>
      refine measure_subscription hget rfl rfl rfl ?_
      have hlength : room.messages.value.length ≤ room.texts := Nat.le_add_right _ _
      obtain ⟨hlt, -⟩ := List.getElem?_eq_some_iff.mp hmessage
      obtain ⟨next', hadd', hnext⟩ := raise_of_found checks (by omega) hmessage
      cases hadd.symm.trans hadd'
      -- one text less to come pays for going back to the start
      simp only [effort, rank, hnext]
      omega
  | overflowed hget _ _ =>
      exact measure_subscription hget rfl rfl rfl (effort_moved _ _ (by decide))
  | missed hget _ => exact measure_subscription hget rfl rfl rfl (effort_moved _ _ (by decide))
  | left hget => exact measure_subscription hget rfl rfl rfl (effort_moved _ _ (by decide))
  | armed hget => exact measure_subscription hget rfl rfl rfl (effort_moved _ _ (by decide))
  | @releasedRead k nextEvent notified hget =>
      refine measure_subscription hget rfl rfl rfl (effort_moved _ _ ?_)
      cases notified <;> decide
  | woken hget => exact measure_subscription hget rfl rfl rfl (effort_moved _ _ (by decide))

/-- Below `2 ^ 16` texts the calls under way come to an end. -/
theorem settles (checks : Bool) :
    Settles (step checks) Own (fun room => room.texts ≤ 2 ^ 16 - 1) measure where
  keeps hs hown h := by rwa [(does_of_step h).texts hown]
  lowers hs hown h := (does_of_step h).lowers hs hown

/-! ## At rest -/

/-- Every publisher has returned, and every subscription that is not closed sleeps at the end
of the history or before a text that is not there. -/
structure Served (room : Room) : Prop where
  published : ∀ p ∈ room.publishers, p.progress = .returned
  unlocked : room.messages.writing = false ∧ room.messages.readers = 0
  asleep : ∀ sub ∈ room.subscriptions, sub.progress = .gone ∨
    sub.progress = .blocked false ∧ room.messages.value.length ≤ sub.nextEvent.toNat

theorem served_of_atRest (hs : Sound room) (hrest : AtRest (step checks) Own room) :
    Served room := by
  -- a publisher that holds the guard has a statement to go on with
  have hwaits : ∀ x ∈ room.publishers, x.progress = .waiting ∨ x.progress = .returned := by
    intro x hx
    obtain ⟨i, hi⟩ := List.getElem?_of_mem hx
    obtain ⟨message, progress⟩ := x
    cases progress with
    | waiting => exact .inl rfl
    | returned => exact .inr rfl
    | locked => simpa [step, hi] using hrest (.push i) trivial
    | pushed => simpa [step, hi] using hrest (.notify i) trivial
    | notified => simpa [step, hi] using hrest (.releaseWrite i) trivial
  have hfree : room.messages.writing = false := by
    have hnobody : room.writeGuards = 0 := by
      refine List.countP_eq_zero.mpr fun x hx hholds => ?_
      rcases hwaits x hx with h | h <;> rw [h] at hholds <;> cases hholds
    have hwriter := hs.writer
    rw [hnobody] at hwriter
    cases hw : room.messages.writing with
    | false => rfl
    | true => simp [hw] at hwriter
  -- then every reader gets the lock, and goes on until it sleeps
  have hsleeps : ∀ sub ∈ room.subscriptions,
      sub.progress = .gone ∨ sub.progress = .blocked false := by
    intro sub hsub
    obtain ⟨i, hi⟩ := List.getElem?_of_mem hsub
    obtain ⟨nextEvent, progress⟩ := sub
    cases progress with
    | gone => exact .inl rfl
    | blocked notified =>
        cases notified with
        | false => exact .inr rfl
        | true => simpa [step, hi] using hrest (.wake i) trivial
    | waiting => simpa [step, hi, RwLock.acquireRead, hfree] using hrest (.acquireRead i) trivial
    | locked => simpa [step, hi] using hrest (.look i) trivial
    | returning => simpa [step, hi] using hrest (.leave i) trivial
    | missed => simpa [step, hi] using hrest (.arm i) trivial
    | armed notified => simpa [step, hi] using hrest (.releaseRead i) trivial
  have hreaders : room.messages.readers = 0 := by
    rw [hs.readers]
    refine List.countP_eq_zero.mpr fun sub hsub hholds => ?_
    rcases hsleeps sub hsub with h | h <;> rw [h] at hholds <;> cases hholds
  have hreturned : ∀ x ∈ room.publishers, x.progress = .returned := by
    intro x hx
    obtain ⟨i, hi⟩ := List.getElem?_of_mem hx
    obtain ⟨message, progress⟩ := x
    rcases hwaits _ hx with rfl | h
    · simpa [step, hi, RwLock.acquireWrite, hfree, hreaders] using hrest (.acquireWrite i) trivial
    · exact h
  refine ⟨hreturned, ⟨hfree, hreaders⟩, fun sub hsub => ?_⟩
  rcases hsleeps sub hsub with h | h
  · exact .inl h
  · refine .inr ⟨h, ?_⟩
    rcases hs.unwoken sub hsub (by rw [h]; rfl) with hnone | ⟨x, hx, hpushed⟩
    · exact List.getElem?_eq_none_iff.mp hnone
    · cases (hreturned x hx).symm.trans hpushed

/-- The `k`-th subscription is there and not closed. -/
def Open (room : Room) (k : Nat) : Prop :=
  ∃ sub : Subscription, room.subscriptions[k]? = some sub ∧ sub.progress ≠ .gone

/-- Left alone, a subscription is not closed. -/
theorem Does.open (hcount : room.texts ≤ 2 ^ 16 - 1) (h : Does checks room e t o) (hown : Own e)
    (hopen : room.Open k) : t.Open k := by
  obtain ⟨sub, hsub, hnot⟩ := hopen
  have hset : ∀ {j : Nat} {x y : Subscription}, room.subscriptions[j]? = some x →
      y.progress ≠ .gone → t.subscriptions = room.subscriptions.set j y → t.Open k := by
    intro j x y hj hy ht
    unfold Open
    rw [ht]
    by_cases hjk : j = k
    · subst hjk
      exact ⟨y, List.getElem?_set_self (List.getElem?_eq_some_iff.mp hj).1, hy⟩
    · exact ⟨sub, (List.getElem?_set_ne hjk).trans hsub, hnot⟩
  cases h with
  | subscribed _ => cases hown
  | closed _ _ => cases hown
  | notified _ =>
      refine ⟨{ sub with progress := sub.progress.notify }, ?_, ?_⟩
      · show (room.subscriptions.map _)[k]? = _
        rw [List.getElem?_map, hsub, Option.map_some]
      · cases hp : sub.progress with
        | gone => exact absurd hp hnot
        | _ => simp [Reading.notify]
  | overflowed hget hmessage hadd =>
      have hlength : room.messages.value.length ≤ room.texts := Nat.le_add_right _ _
      obtain ⟨next, hadd', -⟩ := raise_of_found checks (by omega) hmessage
      cases hadd.symm.trans hadd'
  | tookRead hget _ => exact hset hget (by simp) rfl
  | found hget _ _ => exact hset hget (by simp) rfl
  | missed hget _ => exact hset hget (by simp) rfl
  | left hget => exact hset hget (by simp) rfl
  | armed hget => exact hset hget (by simp) rfl
  | releasedRead hget => exact hset hget (by simp) rfl
  | woken hget => exact hset hget (by simp) rfl
  | _ => exact ⟨sub, hsub, hnot⟩

end

section
variable {checks : Bool} {room₀ room : Room} {os : List Returned}

/-- What a run of own statements keeps. -/
theorem alone_of_run (h₀ : room₀.texts ≤ 2 ^ 16 - 1)
    (hrun : Run (step checks) (fun _ => Own) room₀ os room) :
    room.texts ≤ 2 ^ 16 - 1 ∧ ∀ k, room₀.Open k → room.Open k := by
  refine hrun.invariant (fun _ room => room.texts ≤ 2 ^ 16 - 1 ∧
    ∀ k, room₀.Open k → room.Open k) ⟨h₀, fun _ h => h⟩ ?_
  intro os room e t o _ h hown hs
  have hdoes := does_of_step hs
  exact ⟨Nat.le_trans (Nat.le_of_eq (hdoes.texts hown)) h.1,
    fun k hopen => hdoes.open h.1 hown (h.2 k hopen)⟩

/-- At rest an open subscription has returned what the history holds from its position on. -/
theorem returned_of_rest (h₀ : room₀.texts ≤ 2 ^ 16 - 1)
    (hrun : Run (step checks) (fun _ => Own) room₀ os room) (hserved : Served room) {k : Nat}
    {sub : Subscription} (hsub : room₀.subscriptions[k]? = some sub)
    (hopen : sub.progress ≠ .gone) :
    (os.filterMap readOf).filterMap (Feed.readBy k) =
      room.messages.value.zipIdx.drop sub.nextEvent.toNat := by
  have hfeed : Run Feed.step anyStep room₀.feed (os.filterMap readOf) room.feed := by
    refine hrun.project fun hr _ hs => (does_of_step hs).projects ?_
    exact Nat.le_trans (Nat.le_add_right _ _) (alone_of_run h₀ hr).1
  obtain ⟨position, hfollows⟩ := Feed.follows_of_run hfeed (positions_getElem? hsub)
  obtain ⟨sub', hsub', hopen'⟩ := (alone_of_run h₀ hrun).2 k ⟨sub, hsub, hopen⟩
  obtain ⟨-, hend⟩ := (hserved.asleep sub' (List.mem_of_getElem? hsub')).resolve_left hopen'
  obtain rfl : position = sub'.nextEvent.toNat :=
    Option.some.inj (hfollows.here.symm.trans (positions_getElem? hsub'))
  rw [hfollows.reads, Feed.between]
  refine List.take_of_length_le ?_
  have hlength : room.feed.entries.length ≤ sub'.nextEvent.toNat := hend
  rw [List.length_drop, List.length_zipIdx]
  omega

/-- **Everybody is served.** From any reachable state of a room whose calls stay below
`2 ^ 16` texts, and whatever the order of the statements: what is under way comes to an end
within the measure's bound, and where it ends every publisher has returned, the lock is
free, and every subscription that was open has returned the rest of the history from its
position on, each text once and in its place. It always gets there. -/
theorem everybody_served {os₀ : List Returned} (hreach : Run (step checks) anyStep empty os₀ room₀)
    (hcount : room₀.texts ≤ 2 ^ 16 - 1) :
    (∀ es t os, (∀ e ∈ es, Own e) → exec (step checks) room₀ es = some (t, os) →
      es.length ≤ room₀.measure ∧ (AtRest (step checks) Own t → Served t ∧
        ∀ (k : Nat) (sub : Subscription), room₀.subscriptions[k]? = some sub →
          sub.progress ≠ .gone → (os.filterMap readOf).filterMap (Feed.readBy k) =
            t.messages.value.zipIdx.drop sub.nextEvent.toNat)) ∧
      ∃ es t os, (∀ e ∈ es, Own e) ∧ exec (step checks) room₀ es = some (t, os) ∧
        AtRest (step checks) Own t := by
  refine ⟨fun es t os hown hexec => ⟨?_, fun hrest => ?_⟩, (settles checks).exists_rest hcount⟩
  · have hbound := (settles checks).length_le hcount hown hexec
    omega
  · have hrun := run_of_own hown hexec
    have hsound := sound_of_run (hreach.append (hrun.weaken fun _ _ _ => trivial))
    have hserved := served_of_atRest hsound hrest
    exact ⟨hserved, fun k sub hsub hopen => returned_of_rest hcount hrun hserved hsub hopen⟩

end

/-- Two loops, one of them asleep, and two calls that are about to publish. -/
theorem everybody_served_two : ∃ (room₀ t : Room) (os : List Returned),
    room₀.subscriptions[0]? = some ⟨0, .blocked false⟩ ∧
      room₀.subscriptions[1]? = some ⟨1, .waiting⟩ ∧
      exec (step true) room₀ [.acquireRead 1] ≠ none ∧ Served t ∧
      (os.filterMap readOf).filterMap (Feed.readBy 0) = t.messages.value.zipIdx.drop 0 ∧
      (os.filterMap readOf).filterMap (Feed.readBy 1) = t.messages.value.zipIdx.drop 1 := by
  obtain ⟨os₀, room₀, hrun, hend⟩ := Run.ofTest (step true) anyStep empty
    [.subscribe 0, .subscribe 1, .publish "one", .publish "two", .acquireRead 0, .look 0, .arm 0,
      .releaseRead 0]
    (fun r => decide (r.1.subscriptions[0]? = some (⟨0, .blocked false⟩ : Subscription) ∧
      r.1.subscriptions[1]? = some (⟨1, .waiting⟩ : Subscription) ∧
      r.1.texts ≤ 2 ^ 16 - 1 ∧ (exec (step true) r.1 [.acquireRead 1]).isSome))
    (by decide) (admits_anyStep _ _)
  obtain ⟨hasleep, hwaiting, hcount, hgoes⟩ := of_decide_eq_true hend
  obtain ⟨hall, es, t, os, hown, hexec, hrest⟩ := everybody_served hrun hcount
  obtain ⟨-, hserved⟩ := hall es t os hown hexec
  obtain ⟨hserved, hreturned⟩ := hserved hrest
  exact ⟨room₀, t, os, hasleep, hwaiting, by rwa [Ne, ← Option.not_isSome_iff_eq_none, not_not],
    hserved, hreturned 0 _ hasleep (by simp), hreturned 1 _ hwaiting (by simp)⟩

end MpcServer.Messenger.Wakeups.Room

import MpcServer.Messenger.LiveRoom
import MpcServer.Messenger.Handlers

/-!
# What a subscription returns

A subscription reads its room by position, and the position is the event id:
one `u16` that goes up with every text, over a history without a bound. As long
as the histories stay below `2 ^ 16` texts, a subscription returns the texts of
its room one after the other from its start. The start comes from the client,
and nothing says that it lies inside the history.
-/

namespace MpcServer.Messenger

open Rust Machine

/-- A text that is published to the room. -/
def publishedTo (room : Nat) : Obs → Option String
  | .published _ r message => if r = room then some message else none
  | _ => none

/-- A value that `next` of the `k`-th subscription returns. -/
def returnedBy (k : Nat) : Obs → Option (UInt16 × String)
  | .returned j id message => if j = k then some (id, message) else none
  | _ => none

namespace Db

/-- The next poll of the `k`-th subscription panics. -/
def Panics (checks : Bool) (db : Db) (k : Nat) : Prop :=
  ∃ sub message p, db.subscriptions[k]? = some sub ∧ sub.live = true ∧ sub.waiting = none ∧
    (db.roomAt sub.room).messages[sub.nextEvent.toNat]? = some message ∧
    addU16 checks sub.nextEvent 1 = .error p

/-- Nothing is published to a room that holds `2 ^ 16 - 1` texts. -/
def KeepsCount (db : Db) : Event → Prop
  | .finish h => match db.handlers[h]? with
    | some ⟨.broadcast _, .found room⟩ => (db.roomAt room).messages.length < 2 ^ 16 - 1
    | _ => True
  | _ => True

instance (db : Db) (e : Event) : Decidable (KeepsCount db e) := by
  unfold KeepsCount
  split
  · split <;> infer_instance
  · infer_instance

/-! ## The history of a room -/

section
variable {checks : Bool} {db t : Db} {e : Event} {o os : List Obs}

theorem messages_modify (f : Room → Room) (hf : ∀ r, (f r).messages = r.messages)
    (l : List Room) (room r : Nat) :
    ((l.modify room f).getD r Room.empty).messages = (l.getD r Room.empty).messages := by
  simp only [List.getD_eq_getElem?_getD, List.getElem?_modify]
  cases l[r]? with
  | none => simp
  | some x => by_cases h : room = r <;> simp [h, hf]

theorem messages_insertRoom (db : Db) (roomId : String) (room : Nat) :
    ((db.insertRoom roomId).roomAt room).messages = (db.roomAt room).messages := by
  unfold roomAt insertRoom
  simp only [List.getD_eq_getElem?_getD]
  by_cases hlt : room < db.heap.length
  · rw [List.getElem?_append_left hlt]
  · have hge : db.heap.length ≤ room := by omega
    rw [List.getElem?_append_right hge, List.getElem?_eq_none hge]
    cases room - db.heap.length <;> rfl

theorem messages_publish (db : Db) {room : Nat} (h : room < db.heap.length) (message : String)
    (r : Nat) : ((db.publish room message).roomAt r).messages =
      (db.roomAt r).messages ++ if room = r then [message] else [] := by
  unfold roomAt publish
  by_cases heq : room = r
  · subst heq
    rw [roomAt_modify _ _ _ _ h, if_pos rfl, if_pos rfl]
  · simp only [List.getD_eq_getElem?_getD, List.getElem?_modify, heq, if_false, List.append_nil]
    cases db.heap[r]? <;> rfl

/-- A step appends to the history of a room what it publishes there. -/
theorem Steps.messages (hs : Sound db) (h : Steps checks db e t o) (room : Nat) :
    (t.roomAt room).messages = (db.roomAt room).messages ++ o.filterMap (publishedTo room) := by
  have hnothing : ∀ t : Db, (t.roomAt room).messages = (db.roomAt room).messages →
      (t.roomAt room).messages = (db.roomAt room).messages ++ [] := by
    intro t ht
    rw [ht, List.append_nil]
  have hlower : ∀ r, ((db.lower r).roomAt room).messages = (db.roomAt room).messages :=
    fun r => messages_modify (fun x => { x with subscribers := x.subscribers - 1 })
      (fun _ => rfl) db.heap r room
  have hraise : ∀ r, ((db.raise r).roomAt room).messages = (db.roomAt room).messages :=
    fun r => messages_modify (fun x => { x with subscribers := x.subscribers + 1 })
      (fun _ => rfl) db.heap r room
  cases h with
  | writeNew _ _ => exact hnothing _ (messages_insertRoom db roomKey room)
  | @subscribed h last r _ _ _ => exact hnothing _ (hraise r)
  | @panicked h last r _ _ _ => exact hnothing _ (hraise r)
  | @published h message r hget =>
      have hin := hs.handlers _ (List.mem_of_getElem? hget) r (.inl rfl)
      refine (messages_publish db hin message room).trans ?_
      by_cases heq : r = room <;> simp [publishedTo, heq]
  | @overflowed k sub _ _ _ _ _ _ _ => exact hnothing _ (hlower sub.room)
  | @closed k sub _ _ => exact hnothing _ (hlower sub.room)
  | _ => exact hnothing _ rfl

theorem sound_of_run {guard : Db → Event → Prop} (hrun : Run (step checks) guard empty os db) :
    Sound db :=
  hrun.invariant (fun _ s => Sound s) .empty fun _ h _ hs => h.step (step_cases hs)

/-- A room holds what was published to it, in that order. -/
theorem messages_of_run {guard : Db → Event → Prop}
    (hrun : Run (step checks) guard empty os db) (room : Nat) :
    (db.roomAt room).messages = os.filterMap (publishedTo room) := by
  refine hrun.invariant
    (fun os s => (s.roomAt room).messages = os.filterMap (publishedTo room)) rfl ?_
  intro os s e t o hr ih _ hstep
  rw [(step_cases hstep).messages (sound_of_run hr), ih, List.filterMap_append]

/-- What a subscription has returned was published before. -/
theorem published_of_returned {guard : Db → Event → Prop}
    (hrun : Run (step checks) guard empty os db) {k : Nat} {id : UInt16} {message : String}
    (h : .returned k id message ∈ os) : ∃ h room, .published h room message ∈ os := by
  obtain ⟨os₁, s, e, t, o, os₂, hbefore, -, hstep, hmem, -, rfl⟩ := hrun.step_of_mem h
  cases step_cases hstep with
  | @returned k' sub message' _ _ _ _ hmessage _ =>
      cases List.mem_singleton.mp hmem
      rw [messages_of_run hbefore] at hmessage
      obtain ⟨x, hx, hpublished⟩ := List.mem_filterMap.mp (List.mem_of_getElem? hmessage)
      unfold publishedTo at hpublished
      split at hpublished
      · split at hpublished
        · cases hpublished
          exact ⟨_, _, List.mem_append_left _ hx⟩
        · cases hpublished
      · cases hpublished
  | _ => simp at hmem

/-- Only a subscription that there is has returned something. -/
theorem lt_of_returned {guard : Db → Event → Prop}
    (hrun : Run (step checks) guard empty os db) {k : Nat} {id : UInt16} {message : String}
    (h : .returned k id message ∈ os) : k < db.subscriptions.length := by
  revert h
  refine hrun.invariant (fun os db => .returned k id message ∈ os → k < db.subscriptions.length)
    (fun h => by cases h) ?_
  intro os db e t o _ ih _ hs h
  have hle := subscriptions_length_le (step_cases hs)
  rcases List.mem_append.mp h with h | h
  · exact Nat.lt_of_lt_of_le (ih h) hle
  · cases step_cases hs with
    | returned hget _ _ _ _ =>
        cases List.mem_singleton.mp h
        exact Nat.lt_of_lt_of_le (List.getElem?_eq_some_iff.mp hget).1 hle
    | _ => simp at h

theorem unreturned {guard : Db → Event → Prop} (hrun : Run (step checks) guard empty os db) :
    os.filterMap (returnedBy db.subscriptions.length) = [] := by
  refine List.filterMap_eq_nil_iff.mpr fun x hx => ?_
  cases x with
  | returned k id message =>
      have hne : k ≠ db.subscriptions.length := Nat.ne_of_lt (lt_of_returned hrun hx)
      simp [returnedBy, hne]
  | _ => rfl

theorem length_messages_le (hrun : Run (step checks) KeepsCount empty os db) (room : Nat) :
    (db.roomAt room).messages.length ≤ 2 ^ 16 - 1 := by
  refine hrun.invariant (fun _ s => (s.roomAt room).messages.length ≤ 2 ^ 16 - 1)
    (Nat.zero_le _) ?_
  intro os s e t o hr ih hg hstep
  have hs := step_cases hstep
  rw [hs.messages (sound_of_run hr), List.length_append]
  cases hs with
  | @published h message r hget =>
      have hlt : (s.roomAt r).messages.length < 2 ^ 16 - 1 := by simpa [KeepsCount, hget] using hg
      by_cases heq : r = room
      · subst heq
        simp only [publishedTo, List.filterMap_cons, if_true, List.filterMap_nil,
          List.length_singleton]
        omega
      · simpa [publishedTo, heq] using ih
  | _ => exact ih

end

/-! ## One subscription -/

/-- The `k`-th subscription has returned the texts of its room from `start` up
to its position, which lies inside the history; it sleeps at the end only. -/
structure Streams (k room start : Nat) (os : List Obs) (db : Db) (sub : Subscription) :
    Prop where
  here : db.subscriptions[k]? = some sub
  reads : sub.room = room
  next : sub.nextEvent.toNat = start + (os.filterMap (returnedBy k)).length
  inside : sub.nextEvent.toNat ≤ (db.roomAt room).messages.length
  texts : ∀ n id message, (os.filterMap (returnedBy k))[n]? = some (id, message) →
    id.toNat = start + n ∧ (db.roomAt room).messages[start + n]? = some message
  asleep : sub.waiting = some false → sub.nextEvent.toNat = (db.roomAt room).messages.length

section
variable {checks : Bool} {k room start : Nat} {os o : List Obs} {db t : Db}
  {sub sub' : Subscription} {e : Event}

/-- The subscription returns nothing, whatever else goes on. -/
theorem Streams.still (h : Streams k room start os db sub)
    (ho : o.filterMap (returnedBy k) = []) {more : List String}
    (hmessages : (t.roomAt room).messages = (db.roomAt room).messages ++ more)
    (hget : t.subscriptions[k]? = some sub') (hroom : sub'.room = sub.room)
    (hnext : sub'.nextEvent = sub.nextEvent)
    (hasleep : sub'.waiting = some false →
      sub.nextEvent.toNat = (t.roomAt room).messages.length) :
    Streams k room start (os ++ o) t sub' := by
  have hreturned : (os ++ o).filterMap (returnedBy k) = os.filterMap (returnedBy k) := by
    rw [List.filterMap_append, ho, List.append_nil]
  refine ⟨hget, hroom.trans h.reads, ?_, ?_, fun n id message hn => ?_, ?_⟩
  · rw [hreturned, hnext, h.next]
  · have := h.inside
    rw [hnext, hmessages, List.length_append]
    omega
  · rw [hreturned] at hn
    obtain ⟨hid, htext⟩ := h.texts n id message hn
    obtain ⟨hlt, -⟩ := List.getElem?_eq_some_iff.mp htext
    exact ⟨hid, by rw [hmessages, List.getElem?_append_left hlt, htext]⟩
  · rw [hnext]
    exact hasleep

/-- It returns the text at its position and goes on to the next. -/
theorem Streams.returned (h : Streams k room start os db sub) {message : String}
    {nextEvent : UInt16}
    (hmessage : (db.roomAt room).messages[sub.nextEvent.toNat]? = some message)
    (hadd : addU16 checks sub.nextEvent 1 = .ok nextEvent)
    (hbound : (db.roomAt room).messages.length ≤ 2 ^ 16 - 1) (hwaiting : sub.waiting = none) :
    Streams k room start (os ++ [.returned k sub.nextEvent message])
      (db.setSubscription k { sub with nextEvent }) { sub with nextEvent } := by
  obtain ⟨hlt, -⟩ := List.getElem?_eq_some_iff.mp hmessage
  have hone : (1 : UInt16).toNat = 1 := rfl
  have hnext : nextEvent.toNat = sub.nextEvent.toNat + 1 := toNat_addU16 hadd (by omega)
  have hreturned : (os ++ [Obs.returned k sub.nextEvent message]).filterMap (returnedBy k) =
      os.filterMap (returnedBy k) ++ [(sub.nextEvent, message)] := by
    simp [List.filterMap_append, returnedBy]
  obtain ⟨hk, -⟩ := List.getElem?_eq_some_iff.mp h.here
  refine ⟨List.getElem?_set_self hk, h.reads, ?_, ?_, fun n id text hn => ?_, ?_⟩
  · show nextEvent.toNat = _
    rw [hreturned, List.length_append, List.length_singleton, hnext, h.next]
    omega
  · show nextEvent.toNat ≤ (db.roomAt room).messages.length
    omega
  · show id.toNat = start + n ∧ (db.roomAt room).messages[start + n]? = some text
    rw [hreturned] at hn
    -- a text that was there, or the one just returned
    rcases Nat.lt_or_ge n (os.filterMap (returnedBy k)).length with hn' | hn'
    · rw [List.getElem?_append_left hn'] at hn
      exact h.texts n id text hn
    · rw [List.getElem?_append_right hn', List.getElem?_singleton] at hn
      split at hn
      · have hpos : sub.nextEvent.toNat = start + n := by
          have := h.next
          omega
        cases hn
        exact ⟨hpos, hpos ▸ hmessage⟩
      · cases hn
  · intro hfalse
    cases hwaiting.symm.trans hfalse

theorem subscription_set (hget : db.subscriptions[k]? = some sub) {j : Nat} {s : Subscription}
    (hj : db.subscriptions[j]? = some s) (s' : Subscription) :
    (j = k ∧ s = sub ∧ (db.setSubscription j s').subscriptions[k]? = some s') ∨
      (j ≠ k ∧ (db.setSubscription j s').subscriptions[k]? = some sub) := by
  by_cases heq : j = k
  · subst heq
    obtain ⟨hlt, -⟩ := List.getElem?_eq_some_iff.mp hj
    exact .inl ⟨rfl, Option.some.inj (hj.symm.trans hget), List.getElem?_set_self hlt⟩
  · exact .inr ⟨heq, (List.getElem?_set_ne heq).trans hget⟩

/-- What it has returned is the part of its room between its start and its position. -/
theorem Streams.returnedTexts (h : Streams k room start os db sub) :
    (os.filterMap (returnedBy k)).map Prod.snd =
      ((db.roomAt room).messages.take sub.nextEvent.toNat).drop start := by
  refine List.ext_getElem? fun n => ?_
  have hnext := h.next
  rw [List.getElem?_map, List.getElem?_drop, List.getElem?_take]
  cases hn : (os.filterMap (returnedBy k))[n]? with
  | some x =>
      have hlt := (List.getElem?_eq_some_iff.mp hn).1
      rw [if_pos (by omega), (h.texts n x.1 x.2 hn).2, Option.map_some]
  | none =>
      have hge := List.getElem?_eq_none_iff.mp hn
      rw [if_neg (by omega), Option.map_none]

/-- Nothing that it returned is left out. -/
theorem Streams.unseen (h : Streams k room start [] db sub)
    (hnone : os.filterMap (returnedBy k) = []) : Streams k room start os db sub := by
  obtain ⟨here, reads, next, inside, -, asleep⟩ := h
  refine ⟨here, reads, ?_, inside, fun n id message hn => ?_, asleep⟩
  · rw [hnone]
    exact next
  · rw [hnone] at hn
    cases hn

theorem Streams.step (h : Streams k room start os db sub) (hs : Sound db)
    (hbound : (db.roomAt room).messages.length ≤ 2 ^ 16 - 1) (hstep : Steps checks db e t o) :
    ∃ sub', Streams k room start (os ++ o) t sub' := by
  have hmessages := hstep.messages hs room
  -- another handler moves, the subscription stays as it is
  have hsame : t.subscriptions[k]? = some sub → o.filterMap (returnedBy k) = [] →
      o.filterMap (publishedTo room) = [] → ∃ sub', Streams k room start (os ++ o) t sub' := by
    intro hget ho hp
    rw [hp] at hmessages
    refine ⟨sub, h.still ho hmessages hget rfl rfl fun hw => ?_⟩
    rw [hmessages, List.append_nil]
    exact h.asleep hw
  -- a subscription changes in its flags only
  have hset : ∀ {j : Nat} {s s' : Subscription}, db.subscriptions[j]? = some s →
      t.subscriptions = (db.setSubscription j s').subscriptions → o = [] → s'.room = s.room →
      s'.nextEvent = s.nextEvent → (s'.waiting = some false → j = k →
        sub.nextEvent.toNat = (db.roomAt room).messages.length) →
      ∃ sub', Streams k room start (os ++ o) t sub' := by
    intro j s s' hj ht ho hroom hnext hasleep
    subst ho
    rcases subscription_set h.here hj s' with ⟨hjk, rfl, hget⟩ | ⟨-, hget⟩
    · refine ⟨s', h.still rfl hmessages (ht ▸ hget) hroom hnext fun hw => ?_⟩
      rw [hmessages, List.filterMap_nil, List.append_nil]
      exact hasleep hw hjk
    · exact hsame (ht ▸ hget) rfl rfl
  cases hstep with
  | subscribed _ _ =>
      obtain ⟨hlt, -⟩ := List.getElem?_eq_some_iff.mp h.here
      exact hsame ((List.getElem?_append_left hlt).trans h.here) rfl rfl
  | @published h' message r hget =>
      have hnotify : ((db.publish r message).setHandler h' (.broadcast message)
          .returned).subscriptions[k]? = some (notify r sub) := by
        show (db.subscriptions.map (notify r))[k]? = _
        rw [List.getElem?_map, h.here, Option.map_some]
      refine ⟨notify r sub, h.still rfl hmessages hnotify ?_ ?_ fun hw => ?_⟩
      · unfold notify
        split <;> rfl
      · unfold notify
        split <;> rfl
      · unfold notify at hw
        split at hw
        · cases hw
        · rename_i hnot
          have hr : r ≠ room := fun heq => hnot ⟨h.reads.trans heq.symm, hw⟩
          rw [hmessages]
          simpa [publishedTo, hr] using h.asleep hw
  | @returned j s message nextEvent hj hlive hwaiting hmessage hadd =>
      rcases subscription_set h.here hj { s with nextEvent } with
        ⟨rfl, rfl, -⟩ | ⟨hne, hget⟩
      · rw [h.reads] at hmessage
        exact ⟨_, h.returned hmessage hadd hbound hwaiting⟩
      · exact hsame hget (by simp [returnedBy, hne]) rfl
  | overflowed hj _ _ _ _ =>
      refine hset hj rfl rfl rfl rfl fun hw hjk => ?_
      subst hjk
      cases h.here.symm.trans hj
      exact h.asleep hw
  | @awaits j s hj _ _ hnone =>
      refine hset hj rfl rfl rfl rfl fun _ hjk => ?_
      subst hjk
      cases h.here.symm.trans hj
      rw [h.reads] at hnone
      exact Nat.le_antisymm h.inside (List.getElem?_eq_none_iff.mp hnone)
  | woken hj _ _ => exact hset hj rfl rfl rfl rfl fun hw _ => by cases hw
  | closed hj _ =>
      refine hset hj rfl rfl rfl rfl fun hw hjk => ?_
      subst hjk
      cases h.here.symm.trans hj
      exact h.asleep hw
  | _ => exact hsame h.here rfl rfl

theorem Streams.not_panics (h : Streams k room start os db sub)
    (hbound : (db.roomAt room).messages.length ≤ 2 ^ 16 - 1) : ¬ db.Panics checks k := by
  rintro ⟨s, message, p, hget, -, -, hmessage, hadd⟩
  cases h.here.symm.trans hget
  rw [h.reads] at hmessage
  obtain ⟨hlt, -⟩ := List.getElem?_eq_some_iff.mp hmessage
  have hone : (1 : UInt16).toNat = 1 := rfl
  unfold addU16 at hadd
  split at hadd
  · omega
  · cases hadd

/-- It lives on as long as it is not closed. -/
theorem Streams.lives (h : Streams k room start os db sub) (hlive : sub.live = true)
    (hbound : (db.roomAt room).messages.length ≤ 2 ^ 16 - 1) (hs : Steps checks db e t o)
    (hopen : e ≠ .close k) (hget : t.subscriptions[k]? = some sub') : sub'.live = true := by
  have hsame (ht : t.subscriptions[k]? = some sub) : sub'.live = true := by
    cases ht.symm.trans hget
    exact hlive
  have hset {j : Nat} {s s' : Subscription} (hj : db.subscriptions[j]? = some s)
      (ht : t.subscriptions = (db.setSubscription j s').subscriptions)
      (hk : j = k → s'.live = true) : sub'.live = true := by
    rcases subscription_set h.here hj s' with ⟨hjk, rfl, hgot⟩ | ⟨-, hgot⟩
    · cases (ht ▸ hget).symm.trans hgot
      exact hk hjk
    · exact hsame (ht ▸ hgot)
  cases hs with
  | subscribed _ _ =>
      obtain ⟨hlt, -⟩ := List.getElem?_eq_some_iff.mp h.here
      exact hsame ((List.getElem?_append_left hlt).trans h.here)
  | @published h' message r _ =>
      have hnotify : (db.subscriptions.map (notify r))[k]? = some sub' := hget
      rw [List.getElem?_map, h.here, Option.map_some] at hnotify
      cases hnotify
      unfold notify
      split <;> exact hlive
  | returned hj hl _ _ _ => exact hset hj rfl fun _ => hl
  | overflowed hj hl hw hmessage hadd =>
      refine hset hj rfl fun hjk => ?_
      subst hjk
      exact absurd ⟨_, _, _, hj, hl, hw, hmessage, hadd⟩ (h.not_panics hbound)
  | awaits hj hl _ _ => exact hset hj rfl fun _ => hl
  | woken hj hl _ => exact hset hj rfl fun _ => hl
  | closed hj _ => exact hset hj rfl fun hjk => absurd (congrArg Event.close hjk) hopen
  | _ => exact hsame h.here

/-! ## From its creation on -/

/-- Handler `h` subscribes to its room: what it creates is the next
subscription, and it starts at `start`. -/
structure Subscribes (checks : Bool) (db : Db) (h : Nat) (last : Option UInt16) (room : Nat)
    (start : UInt16) (t : Db) : Prop where
  found : db.handlers[h]? = some ⟨.subscribe last, .found room⟩
  start : nextEventOf checks last = .ok start
  finish : Db.step checks db (.finish h) = some (t, [.subscribed h room])

theorem Subscribes.streams {h : Nat} {last : Option UInt16} {start : UInt16}
    (hsub : Subscribes checks db h last room start t)
    (hinside : start.toNat ≤ (db.roomAt room).messages.length) :
    ∃ sub, Streams db.subscriptions.length room start.toNat [] t sub := by
  have hfinish := hsub.finish
  simp only [Db.step, hsub.found, hsub.start, Option.some.injEq, Prod.mk.injEq, and_true] at hfinish
  subst hfinish
  have hmessages := messages_modify (fun x => { x with subscribers := x.subscribers + 1 })
    (fun _ => rfl) db.heap room room
  refine ⟨{ room, nextEvent := start, waiting := none, live := true },
    List.getElem?_concat_length, rfl, rfl, ?_, by simp, by rintro ⟨⟩⟩
  exact Nat.le_trans hinside (Nat.le_of_eq (congrArg List.length hmessages.symm))

variable {os' : List Obs} {s u : Db} {h : Nat} {last : Option UInt16} {start : UInt16}

/-- A subscription that starts inside the history streams to the end of the run. -/
theorem streams_of_run (hbefore : Run (Db.step checks) KeepsCount empty os s)
    (hsub : Subscribes checks s h last room start t)
    (hinside : start.toNat ≤ (s.roomAt room).messages.length)
    (hafter : Run (Db.step checks) KeepsCount t os' u) :
    Run (Db.step checks) KeepsCount empty (os ++ .subscribed h room :: os') u ∧
      ∃ sub, Streams s.subscriptions.length room start.toNat os' u sub := by
  have hguard : KeepsCount s (.finish h) := by simp [KeepsCount, hsub.found]
  have hcreated := hbefore.next hguard hsub.finish
  have hwhole : ∀ {o : List Obs} {v : Db}, Run (Db.step checks) KeepsCount t o v →
      Run (Db.step checks) KeepsCount empty (os ++ .subscribed h room :: o) v := by
    intro o v hrun
    simpa using hcreated.append hrun
  refine ⟨hwhole hafter, ?_⟩
  refine hafter.invariant
    (fun os u => ∃ sub, Streams s.subscriptions.length room start.toNat os u sub)
    (hsub.streams hinside) ?_
  rintro os₁ v e w o hr ⟨sub, hstreams⟩ - hstep
  exact hstreams.step (sound_of_run (hwhole hr)) (length_messages_le (hwhole hr) room)
    (step_cases hstep)

/-- **Every text once, in order.** In a run in which no room gets more than
`2 ^ 16 - 1` texts, the `n`-th value that a subscription without a
`Last-Event-ID` returns is the `n`-th text published to its room under the id
`n`, and its next poll does not panic. -/
theorem returned_eq_published (hbefore : Run (Db.step checks) KeepsCount empty os s)
    (hsub : Subscribes checks s h none room start t)
    (hafter : Run (Db.step checks) KeepsCount t os' u) :
    (∀ n (id : UInt16) message,
      (os'.filterMap (returnedBy s.subscriptions.length))[n]? = some (id, message) →
        id.toNat = n ∧
          ((os ++ .subscribed h room :: os').filterMap (publishedTo room))[n]? = some message) ∧
      ¬ u.Panics checks s.subscriptions.length := by
  obtain rfl : 0 = start := Except.ok.inj hsub.start
  obtain ⟨hrun, sub, hstreams⟩ := streams_of_run hbefore hsub (Nat.zero_le _) hafter
  refine ⟨fun n id message hn => ?_, hstreams.not_panics (length_messages_le hrun room)⟩
  rw [← messages_of_run hrun]
  simpa using hstreams.texts n id message hn

/-- The first subscriber has found its room. -/
def firstFound : Db where
  heap := [Room.empty]
  rooms := Function.update (fun _ => none) roomKey (some 0)
  handlers := [{ task := .subscribe none, progress := .found 0 }]
  subscriptions := []

theorem firstFound_of_empty :
    Run (Db.step checks) KeepsCount empty [.found 0 0] firstFound := by
  have hadmits : Admits (Db.step checks) KeepsCount empty
      [.request (.subscribe none), .read 0, .write 0] :=
    .cons trivial rfl (.cons trivial rfl (.cons trivial rfl trivial))
  exact .ofExec rfl hadmits

/-- The map after the first subscription. -/
def oneSubscriber : Db where
  heap := [{ messages := [], subscribers := 1 }]
  rooms := Function.update (fun _ => none) roomKey (some 0)
  handlers := [{ task := .subscribe none, progress := .returned }]
  subscriptions := [{ room := 0, nextEvent := 0, waiting := none, live := true }]

theorem subscribes_oneSubscriber : Subscribes checks firstFound 0 none 0 0 oneSubscriber :=
  ⟨rfl, rfl, rfl⟩

/-- One subscriber, one text. -/
theorem returned_eq_published_hello :
    ∃ os' u, Run (Db.step true) KeepsCount oneSubscriber os' u ∧
      os'.filterMap (returnedBy 0) = [(0, "hello")] ∧
      (∀ n (id : UInt16) message, (os'.filterMap (returnedBy 0))[n]? = some (id, message) →
        id.toNat = n ∧ (([Obs.found 0 0] ++ .subscribed 0 0 :: os').filterMap
          (publishedTo 0))[n]? = some message) ∧ ¬ u.Panics true 0 := by
  have hadmits : Admits (Db.step true) KeepsCount oneSubscriber
      [.request (.broadcast "hello"), .read 1, .finish 1, .poll 0] :=
    .cons trivial rfl (.cons trivial rfl (.cons (by decide) rfl (.cons trivial rfl trivial)))
  have hafter := Run.ofExec rfl hadmits
  exact ⟨_, _, hafter, rfl, returned_eq_published firstFound_of_empty subscribes_oneSubscriber
    hafter⟩

/-! ## Past the counter -/

/-- A broadcast from its request to its return, with nothing in between. -/
theorem broadcast_run (checks : Bool) (db : Db) (hroom : db.rooms roomKey = some room)
    (hheld : (db.roomAt room).isAbandoned = false) (message : String) :
    Run (Db.step checks) anyStep db
      [.found db.handlers.length room, .published db.handlers.length room message]
      ((db.publish room message).addHandler (.broadcast message) .returned) := by
  have hlookup : (db.addHandler (.broadcast message) .start).lookupRead roomKey = some room := by
    have hkept : ((db.addHandler (.broadcast message) .start).roomAt room).isAbandoned = false :=
      hheld
    unfold lookupRead
    rw [show (db.addHandler (.broadcast message) .start).rooms = db.rooms from rfl, hroom]
    simp [hkept]
  have hrequest : Db.step checks db (.request (.broadcast message)) =
      some (db.addHandler (.broadcast message) .start, []) := rfl
  have hread : Db.step checks (db.addHandler (.broadcast message) .start)
      (.read db.handlers.length) = some (db.addHandler (.broadcast message) (.found room),
        [.found db.handlers.length room]) := by
    simp only [Db.step, addHandler_get, hlookup, addHandler_set]
  have hdone : ((db.addHandler (.broadcast message) (.found room)).publish room message).setHandler
      db.handlers.length (.broadcast message) .returned =
        (db.publish room message).addHandler (.broadcast message) .returned :=
    addHandler_set (db.publish room message) _ _ _
  have hfinish : Db.step checks (db.addHandler (.broadcast message) (.found room))
      (.finish db.handlers.length) =
        some ((db.publish room message).addHandler (.broadcast message) .returned,
          [.published db.handlers.length room message]) := by
    simp only [Db.step, addHandler_get, hdone]
  exact ((Run.start.next trivial hrequest).next trivial hread).next trivial hfinish

/-- A room with `n` texts and one subscription, whose next event is `nextEvent`. -/
def longRoom (n : Nat) (nextEvent : UInt16) : Db where
  heap := [{ messages := List.replicate n "x", subscribers := 1 }]
  rooms := Function.update (fun _ => none) roomKey (some 0)
  handlers := { task := .subscribe none, progress := .returned } ::
    List.replicate n { task := .broadcast "x", progress := .returned }
  subscriptions := [{ room := 0, nextEvent, waiting := none, live := true }]

theorem longRoom_message {n : Nat} {nextEvent : UInt16} (h : nextEvent.toNat < n) :
    ((longRoom n nextEvent).roomAt 0).messages[nextEvent.toNat]? = some "x" :=
  List.getElem?_replicate_of_lt h

theorem longRoom_publish (checks : Bool) (n : Nat) (nextEvent : UInt16) :
    ∃ h, Run (Db.step checks) anyStep (longRoom n nextEvent)
      [.found h 0, .published h 0 "x"] (longRoom (n + 1) nextEvent) := by
  have hrun := broadcast_run checks (longRoom n nextEvent) rfl rfl "x"
  have hend : longRoom (n + 1) nextEvent =
      ((longRoom n nextEvent).publish 0 "x").addHandler (.broadcast "x") .returned := by
    simp [longRoom, addHandler, publish, notify, List.replicate_succ']
  exact ⟨_, hend ▸ hrun⟩

theorem longRoom_poll (n : Nat) (nextEvent next : UInt16) (h : nextEvent.toNat < n)
    (hadd : addU16 checks nextEvent 1 = .ok next) :
    Db.step checks (longRoom n nextEvent) (.poll 0) =
      some (longRoom n next, [.returned 0 nextEvent "x"]) := by
  have hstep : Db.step checks (longRoom n nextEvent) (.poll 0) =
      some (poll checks (longRoom n nextEvent) 0
        { room := 0, nextEvent, waiting := none, live := true }) := rfl
  simp only [hstep, poll, longRoom_message h, hadd]
  rfl

/-- Texts are published and returned in turn. -/
theorem longRoom_of_oneSubscriber (checks : Bool) {n : Nat} (hn : n < 2 ^ 16) :
    ∃ os, Run (Db.step checks) anyStep oneSubscriber os (longRoom n (UInt16.ofNat n)) ∧
      (os.filterMap (returnedBy 0)).length = n := by
  induction n with
  | zero => exact ⟨[], .start, rfl⟩
  | succ n ih =>
      obtain ⟨os, hrun, hlength⟩ := ih (by omega)
      obtain ⟨h, hpublish⟩ := longRoom_publish checks n (UInt16.ofNat n)
      have hone : (1 : UInt16).toNat = 1 := rfl
      have hsmall : (UInt16.ofNat n).toNat = n := UInt16.toNat_ofNat_of_lt' (by omega : n < 2 ^ 16)
      have hadd : addU16 checks (UInt16.ofNat n) 1 = .ok (UInt16.ofNat (n + 1)) := by
        unfold addU16
        rw [if_neg (by omega), UInt16.ofNat_add]
        rfl
      have hpoll := longRoom_poll (n + 1) _ _ (by omega) hadd
      refine ⟨_, (hrun.append hpublish).next trivial hpoll, ?_⟩
      rw [List.filterMap_append, List.filterMap_append, List.length_append, List.length_append,
        hlength]
      rfl

/-- In a release build the position comes round to zero behind the last id, and
the first text is returned again. -/
theorem returned_twice_past_last_id :
    ∃ os u, Run (Db.step false) anyStep empty [.found 0 0] firstFound ∧
      Subscribes false firstFound 0 none 0 0 oneSubscriber ∧
      Run (Db.step false) anyStep oneSubscriber os u ∧
      (os.filterMap (returnedBy 0))[2 ^ 16]? = some (0, "x") := by
  have hlast : 2 ^ 16 - 1 < 2 ^ 16 := by decide
  obtain ⟨os, hrun, hlength⟩ := longRoom_of_oneSubscriber false hlast
  obtain ⟨h, hpublish⟩ := longRoom_publish false (2 ^ 16 - 1)
    (UInt16.ofNat (2 ^ 16 - 1))
  have hpoll : Db.step false _ _ = _ := longRoom_poll (2 ^ 16 - 1 + 1)
    (UInt16.ofNat (2 ^ 16 - 1)) 0 (by decide) (by decide)
  have hagain : Db.step false _ _ = _ := longRoom_poll (2 ^ 16 - 1 + 1) 0 1 (by decide) (by decide)
  refine ⟨_, _, firstFound_of_empty.weaken fun _ _ _ => trivial, subscribes_oneSubscriber,
    ((hrun.append hpublish).next trivial hpoll).next trivial hagain, ?_⟩
  have hall : (((os ++ [Obs.found h 0, .published h 0 "x"]) ++
      [Obs.returned 0 (UInt16.ofNat (2 ^ 16 - 1)) "x"]) ++ [Obs.returned 0 0 "x"]).filterMap
        (returnedBy 0) = os.filterMap (returnedBy 0) ++
          [(UInt16.ofNat (2 ^ 16 - 1), "x"), (0, "x")] := by
    simp only [List.filterMap_append, List.append_assoc]
    rfl
  rw [hall, List.getElem?_append_right (by omega), hlength]
  rfl

/-- In a debug build the poll for the text with the last id panics. -/
theorem panics_at_last_id :
    ∃ os u, Run (Db.step true) anyStep oneSubscriber os u ∧ u.Panics true 0 := by
  have hlast : 2 ^ 16 - 1 < 2 ^ 16 := by decide
  obtain ⟨os, hrun, -⟩ := longRoom_of_oneSubscriber true hlast
  obtain ⟨h, hpublish⟩ := longRoom_publish true (2 ^ 16 - 1)
    (UInt16.ofNat (2 ^ 16 - 1))
  exact ⟨_, _, hrun.append hpublish, _, "x", .arithmeticOverflow, rfl, rfl, rfl,
    longRoom_message (by decide), by decide⟩

/-! ## Nothing is skipped -/

/-- The text at position `p` has been returned, exactly once. -/
def ReturnedOnce (k : Nat) (os : List Obs) (p : Nat) (text : String) : Prop :=
  (os.filterMap (returnedBy k)).filter (·.1.toNat = p) = [(UInt16.ofNat p, text)]

/-- What is published from position `created` on is returned before anything
behind it, and while some of it is left the subscription does not sleep. -/
structure NothingSkipped (k : Nat) (history : List String) (created : Nat) (os : List Obs)
    (db : Db) : Prop where
  before : ∀ os₁ id message os₂, os = os₁ ++ .returned k id message :: os₂ →
    ∀ p text, created ≤ p → p < id.toNat → history[p]? = some text → ReturnedOnce k os₁ p text
  awake : ∀ sub, db.subscriptions[k]? = some sub → sub.waiting = some false →
    ∀ p text, created ≤ p → history[p]? = some text → ReturnedOnce k os p text

theorem filter_id_eq_nil {l : List (UInt16 × String)} {start p : Nat}
    (hl : ∀ n id message, l[n]? = some (id, message) → id.toNat = start + n) (hp : p < start) :
    l.filter (·.1.toNat = p) = [] := by
  refine List.filter_eq_nil_iff.mpr fun x hx => ?_
  obtain ⟨n, hn⟩ := List.getElem?_of_mem hx
  have := hl n x.1 x.2 hn
  simp only [decide_eq_true_eq]
  omega

/-- A list of texts under consecutive ids holds each of them once. -/
theorem filter_id_eq_singleton {l : List (UInt16 × String)} {history : List String}
    {start p : Nat} {text : String}
    (hl : ∀ n id message, l[n]? = some (id, message) →
      id.toNat = start + n ∧ history[start + n]? = some message)
    (hstart : start ≤ p) (hp : p < start + l.length) (htext : history[p]? = some text) :
    l.filter (·.1.toNat = p) = [(UInt16.ofNat p, text)] := by
  induction l generalizing start with
  | nil =>
      simp only [List.length_nil] at hp
      omega
  | cons x l ih =>
      obtain ⟨hid, hmessage⟩ := hl 0 x.1 x.2 rfl
      have hrest : ∀ n id message, l[n]? = some (id, message) →
          id.toNat = start + 1 + n ∧ history[start + 1 + n]? = some message := by
        intro n id message hn
        have := hl (n + 1) id message hn
        rwa [show start + (n + 1) = start + 1 + n by omega] at this
      by_cases heq : start = p
      · subst heq
        have hnil := filter_id_eq_nil (fun n id m hn => (hrest n id m hn).1)
          (Nat.lt_succ_self start)
        have hx : x = (UInt16.ofNat start, text) := by
          refine Prod.ext ?_ (Option.some.inj (hmessage.symm.trans htext))
          show x.1 = UInt16.ofNat start
          rw [← Nat.add_zero start, ← hid, UInt16.ofNat_toNat]
        rw [List.filter_cons_of_pos (by simpa using hid), hnil, hx]
      · rw [List.filter_cons_of_neg (by simp only [decide_eq_true_eq]; omega)]
        simp only [List.length_cons] at hp
        exact ih hrest (by omega) (by omega)

/-- **Nothing is skipped** by a subscription whose start lies inside the
history of its room when it is created, in a run in which no room gets more
than `2 ^ 16 - 1` texts; nor does its next poll panic. -/
theorem nothing_skipped (hbefore : Run (Db.step checks) KeepsCount empty os s)
    (hsub : Subscribes checks s h last room start t)
    (hinside : start.toNat ≤ (s.roomAt room).messages.length)
    (hafter : Run (Db.step checks) KeepsCount t os' u) :
    NothingSkipped s.subscriptions.length
        ((os ++ .subscribed h room :: os').filterMap (publishedTo room))
        (os.filterMap (publishedTo room)).length os' u ∧
      ¬ u.Panics checks s.subscriptions.length := by
  obtain ⟨hrun, sub, hstreams⟩ := streams_of_run hbefore hsub hinside hafter
  rw [messages_of_run hbefore] at hinside
  refine ⟨⟨?_, ?_⟩, hstreams.not_panics (length_messages_le hrun room)⟩
  · intro os₁ id message os₂ heq p text hcreated hp htext
    have hsplit : os'.filterMap (returnedBy s.subscriptions.length) =
        os₁.filterMap (returnedBy s.subscriptions.length) ++
          (id, message) :: os₂.filterMap (returnedBy s.subscriptions.length) := by
      simp [heq, returnedBy]
    -- ids are positions in the room, and they go up by one from the start
    have hid := hstreams.texts (os₁.filterMap (returnedBy s.subscriptions.length)).length id message
      (by rw [hsplit, List.getElem?_append_right (Nat.le_refl _), Nat.sub_self]; rfl)
    refine filter_id_eq_singleton (fun n id m hn => ?_) (Nat.le_trans hinside hcreated)
      (by omega) htext
    rw [← messages_of_run hrun]
    refine hstreams.texts n id m ?_
    rw [hsplit, List.getElem?_append_left (List.getElem?_eq_some_iff.mp hn).1, hn]
  · intro sub' hget hwaiting p text hcreated htext
    cases hstreams.here.symm.trans hget
    -- who sleeps has been through to the end of the room
    have hend := hstreams.asleep hwaiting
    have hnext := hstreams.next
    rw [messages_of_run hrun] at hend
    obtain ⟨hlt, -⟩ := List.getElem?_eq_some_iff.mp htext
    refine filter_id_eq_singleton (fun n id m hn => ?_) (Nat.le_trans hinside hcreated)
      (by omega) htext
    rw [← messages_of_run hrun]
    exact hstreams.texts n id m hn

/-- A subscription that resumes behind the one text of its room. -/
def resuming : Db where
  heap := [{ messages := ["hello"], subscribers := 1 }]
  rooms := Function.update (fun _ => none) roomKey (some 0)
  handlers := [{ task := .subscribe none, progress := .returned },
    { task := .broadcast "hello", progress := .returned },
    { task := .subscribe (some 0), progress := .found 0 }]
  subscriptions := [{ room := 0, nextEvent := 0, waiting := none, live := true }]

/-- The same with the second subscription. -/
def resumed : Db :=
  { resuming with
    heap := [{ messages := ["hello"], subscribers := 2 }]
    handlers := [{ task := .subscribe none, progress := .returned },
      { task := .broadcast "hello", progress := .returned },
      { task := .subscribe (some 0), progress := .returned }]
    subscriptions := [{ room := 0, nextEvent := 0, waiting := none, live := true },
      { room := 0, nextEvent := 1, waiting := none, live := true }] }

/-- The subscription that resumes is handed the next text. -/
theorem nothing_skipped_resumed :
    ∃ os os' u, Run (Db.step true) KeepsCount empty os resuming ∧
      Run (Db.step true) KeepsCount resumed os' u ∧ os'.filterMap (returnedBy 1) = [(1, "again")] ∧
      NothingSkipped 1 ((os ++ .subscribed 2 0 :: os').filterMap (publishedTo 0))
        (os.filterMap (publishedTo 0)).length os' u ∧ ¬ u.Panics true 1 := by
  have hadmits : Admits (Db.step true) KeepsCount empty
      [.request (.subscribe none), .read 0, .write 0, .finish 0, .request (.broadcast "hello"),
        .read 1, .finish 1, .request (.subscribe (some 0)), .read 2] :=
    .cons trivial rfl (.cons trivial rfl (.cons trivial rfl (.cons trivial rfl (.cons trivial rfl
      (.cons trivial rfl (.cons (by decide) rfl (.cons trivial rfl (.cons trivial rfl
        trivial))))))))
  have hadmits' : Admits (Db.step true) KeepsCount resumed
      [.request (.broadcast "again"), .read 3, .finish 3, .poll 1] :=
    .cons trivial rfl (.cons trivial rfl (.cons (by decide) rfl (.cons trivial rfl trivial)))
  have hbefore : Run (Db.step true) KeepsCount empty _ resuming := .ofExec rfl hadmits
  have hafter := Run.ofExec rfl hadmits'
  have hsub : Subscribes true resuming 2 (some 0) 0 1 resumed := ⟨rfl, rfl, rfl⟩
  exact ⟨_, _, _, hbefore, hafter, rfl, nothing_skipped hbefore hsub (by decide) hafter⟩

/-- Its last subscriber gone, the room is replaced; a subscription that resumes
behind id 0 waits for the second text of the new room and misses the first. -/
theorem skips_first_after_replacement :
    ∃ os s t os' u, Run (Db.step true) anyStep empty os s ∧
      Subscribes true s 2 (some 0) 1 1 t ∧ Run (Db.step true) anyStep t os' u ∧
      ¬ NothingSkipped s.subscriptions.length
        ((os ++ .subscribed 2 1 :: os').filterMap (publishedTo 1))
        (os.filterMap (publishedTo 1)).length os' u := by
  have hbefore : Run (Db.step true) anyStep empty _ _ := .ofExec rfl (admits_anyStep
    [.request (.subscribe none), .read 0, .write 0, .finish 0, .request (.broadcast "hello"),
      .read 1, .finish 1, .poll 0, .close 0, .request (.subscribe (some 0)), .read 2, .write 2]
    empty)
  refine ⟨_, _, _, _, _, hbefore, ⟨rfl, rfl, rfl⟩, .ofExec rfl (admits_anyStep
    [.request (.broadcast "again"), .read 3, .finish 3, .poll 1] _), fun h => ?_⟩
  have hreturned := h.awake { room := 1, nextEvent := 1, waiting := some false, live := true }
    rfl rfl 0 "again" (Nat.zero_le _) rfl
  cases hreturned

end

end Db

end MpcServer.Messenger

import MpcServer.Messenger.Rooms

/-!
# The room a subscriber reads

Whether a live subscription reads the room the map holds hangs on one step:
the write section that replaces a room whose counter reads zero. The counter
is zero with somebody there in two ways: a `/subscribe` handler has found the
room and not raised the counter yet, or `2 ^ 16` subscriptions have brought
the counter round to zero. Where neither happens nobody is left behind.
-/

namespace MpcServer.Messenger

open Machine

namespace Db

/-! ## Counting -/

theorem countP_set_add {α : Type} {p : α → Bool} {l : List α} {i : Nat} {b : α}
    (h : l[i]? = some b) (a : α) :
    (l.set i a).countP p + (if p b then 1 else 0) = l.countP p + (if p a then 1 else 0) := by
  obtain ⟨hi, rfl⟩ := List.getElem?_eq_some_iff.mp h
  rw [List.countP_set hi]
  by_cases hp : p l[i]
  · have hpos : 0 < l.countP p := List.countP_pos_iff.mpr ⟨_, List.getElem_mem hi, hp⟩
    simp only [hp, if_true]
    omega
  · simp [hp]

/-- The live subscriptions of a room. -/
def liveOn (db : Db) (room : Nat) : Nat :=
  db.subscriptions.countP fun sub => sub.live && sub.room == room

/-- The increments of a room's counter that no drop will take back. -/
def panickedOn (db : Db) (room : Nat) : Nat :=
  db.handlers.countP fun x => x.progress == .panicked room

/-- What the counter of a room counts, modulo its width. -/
def raisedOn (db : Db) (room : Nat) : Nat := db.liveOn room + db.panickedOn room

theorem panickedOn_setHandler {db : Db} {h : Nat} {x : Handler} (hget : db.handlers[h]? = some x)
    (task : Task) (progress : Progress) (room : Nat) :
    (db.setHandler h task progress).panickedOn room +
        (if x.progress == .panicked room then 1 else 0) =
      db.panickedOn room + if progress == .panicked room then 1 else 0 :=
  countP_set_add hget _

theorem liveOn_setSubscription {db : Db} {k : Nat} {sub : Subscription}
    (hget : db.subscriptions[k]? = some sub) (sub' : Subscription) (room : Nat) :
    (db.setSubscription k sub').liveOn room +
        (if sub.live && sub.room == room then 1 else 0) =
      db.liveOn room + if sub'.live && sub'.room == room then 1 else 0 :=
  countP_set_add hget _

theorem liveOn_publish (db : Db) (room room' : Nat) (message : String) :
    (db.publish room message).liveOn room' = db.liveOn room' := by
  unfold liveOn publish
  rw [List.countP_map]
  congr 1
  funext sub
  simp only [Function.comp, notify]
  split <;> rfl

theorem roomAt_modify (l : List Room) (room r : Nat) (f : Room → Room) (h : r < l.length) :
    (l.modify room f).getD r Room.empty =
      if room = r then f (l.getD r Room.empty) else l.getD r Room.empty := by
  simp only [List.getD_eq_getElem?_getD, List.getElem?_modify, List.getElem?_eq_getElem h,
    Option.getD_some]
  split <;> rfl

theorem roomAt_insertRoom (db : Db) (roomId : String) {room : Nat} (h : room ≤ db.heap.length) :
    (db.insertRoom roomId).roomAt room = if room < db.heap.length then db.roomAt room
      else Room.empty := by
  unfold roomAt insertRoom
  simp only [List.getD_eq_getElem?_getD]
  split
  · rename_i hlt
    rw [List.getElem?_append_left hlt]
  · rename_i hge
    obtain rfl : room = db.heap.length := by omega
    simp

/-! ## The counter counts -/

/-- Every `Arc` that is held points into the heap, and every counter has been
raised for the live subscriptions of its room and for nobody else. -/
structure Sound (db : Db) : Prop where
  rooms : ∀ room, db.rooms roomKey = some room → room < db.heap.length
  subscriptions : ∀ sub ∈ db.subscriptions, sub.room < db.heap.length
  handlers : ∀ x ∈ db.handlers, ∀ room,
    x.progress = .found room ∨ x.progress = .panicked room → room < db.heap.length
  counted : ∀ room, room < db.heap.length →
    (db.roomAt room).subscribers.toNat = db.raisedOn room % 2 ^ 16

theorem Sound.empty : Sound empty where
  rooms _ h := by cases h
  subscriptions _ h := by cases h
  handlers _ h := by cases h
  counted _ h := by cases h

section
variable {db : Db}

/-- A handler moves on and touches nothing else. -/
theorem Sound.setHandler (hs : Sound db) {h : Nat} {x : Handler}
    (hget : db.handlers[h]? = some x) (hx : ∀ room, x.progress ≠ .panicked room)
    {task : Task} {progress : Progress} (hp : ∀ room, progress ≠ .panicked room)
    (hfound : ∀ room, progress = .found room → room < db.heap.length) :
    Sound (db.setHandler h task progress) where
  rooms := hs.rooms
  subscriptions := hs.subscriptions
  handlers y hy room hroom := by
    rcases List.mem_or_eq_of_mem_set hy with hy | rfl
    · exact hs.handlers y hy room hroom
    · exact hroom.elim (hfound room) fun h => absurd h (hp room)
  counted room hroom := by
    have hcount := panickedOn_setHandler hget task progress room
    rw [if_neg (by simpa using hx room), if_neg (by simpa using hp room)] at hcount
    have hraised : (db.setHandler h task progress).raisedOn room = db.raisedOn room := by
      unfold raisedOn
      rw [show (db.setHandler h task progress).liveOn room = db.liveOn room from rfl]
      omega
    rw [hraised]
    exact hs.counted room hroom

theorem Sound.setSubscription (hs : Sound db) {k : Nat} {sub sub' : Subscription}
    (hget : db.subscriptions[k]? = some sub) (hroom : sub'.room = sub.room)
    (hlive : sub'.live = sub.live) : Sound (db.setSubscription k sub') where
  rooms := hs.rooms
  subscriptions s hsub := by
    rcases List.mem_or_eq_of_mem_set hsub with hsub | rfl
    · exact hs.subscriptions s hsub
    · rw [hroom]
      exact hs.subscriptions sub (List.mem_of_getElem? hget)
  handlers := hs.handlers
  counted room hr := by
    have hcount := liveOn_setSubscription hget sub' room
    rw [hroom, hlive] at hcount
    have hraised : (db.setSubscription k sub').raisedOn room = db.raisedOn room := by
      unfold raisedOn
      rw [show (db.setSubscription k sub').panickedOn room = db.panickedOn room from rfl]
      omega
    rw [hraised]
    exact hs.counted room hr

theorem Sound.closeSubscription (hs : Sound db) {k : Nat} {sub : Subscription}
    (hget : db.subscriptions[k]? = some sub) (hlive : sub.live = true) :
    Sound (db.closeSubscription k sub) where
  rooms room h := by
    simpa [Db.closeSubscription, lower, Db.setSubscription] using hs.rooms room h
  subscriptions s hsub := by
    simp only [Db.closeSubscription, lower, Db.setSubscription, List.length_modify]
    rcases List.mem_or_eq_of_mem_set hsub with hsub | rfl
    · exact hs.subscriptions s hsub
    · exact hs.subscriptions sub (List.mem_of_getElem? hget)
  handlers x hx room h := by
    simpa [Db.closeSubscription, lower, Db.setSubscription] using hs.handlers x hx room h
  counted room hr := by
    have hr : room < db.heap.length := by
      simpa [Db.closeSubscription, lower, Db.setSubscription] using hr
    have hcount := liveOn_setSubscription hget { sub with live := false } room
    have hold := hs.counted room hr
    have hafter : (db.closeSubscription k sub).raisedOn room =
        (db.setSubscription k { sub with live := false }).liveOn room + db.panickedOn room := rfl
    have hroom : (db.closeSubscription k sub).roomAt room =
        if sub.room = room then { db.roomAt room with
          subscribers := (db.roomAt room).subscribers - 1 } else db.roomAt room :=
      roomAt_modify _ _ _ _ hr
    rw [hafter, hroom]
    unfold raisedOn at hold
    -- the counter goes down where the live subscription was counted, and nowhere else
    by_cases heq : sub.room = room
    · simp only [hlive, heq, beq_self_eq_true, Bool.and_self, if_true, Bool.false_and,
        Bool.false_eq_true, if_false, UInt16.toNat_sub, UInt16.toNat_one] at hcount ⊢
      omega
    · have hne : (sub.room == room) = false := by simpa using heq
      simp only [hne, Bool.and_false, Bool.false_eq_true, if_false, heq] at hcount ⊢
      omega

theorem Sound.insertRoom (hs : Sound db) : Sound (db.insertRoom roomKey) where
  rooms room h := by
    have : room = db.heap.length := by simpa [Db.insertRoom, eq_comm] using h
    simp [Db.insertRoom, this]
  subscriptions sub hsub := by
    have := hs.subscriptions sub hsub
    simp only [Db.insertRoom, List.length_append, List.length_singleton]
    omega
  handlers x hx room h := by
    have := hs.handlers x hx room h
    simp only [Db.insertRoom, List.length_append, List.length_singleton]
    omega
  counted room hr := by
    simp only [Db.insertRoom, List.length_append, List.length_singleton] at hr
    have hsame : (db.insertRoom roomKey).raisedOn room = db.raisedOn room := rfl
    rw [roomAt_insertRoom db _ (by omega), hsame]
    split
    · exact hs.counted room ‹_›
    · -- nobody holds the place of a room that did not exist
      have hlive : db.liveOn room = 0 := by
        refine List.countP_eq_zero.mpr fun sub hsub => ?_
        have := hs.subscriptions sub hsub
        simp only [Bool.and_eq_true, beq_iff_eq]
        omega
      have hpanicked : db.panickedOn room = 0 := by
        refine List.countP_eq_zero.mpr fun x hx hp => ?_
        have := hs.handlers x hx room (.inr (by simpa using hp))
        omega
      simp [raisedOn, hlive, hpanicked, Room.empty]

/-- `fetch_add` on behalf of one more live subscription or panicked handler. -/
theorem counted_raise (hs : Sound db) (room : Nat) {r : Nat} {t : Db} (hr : r < db.heap.length)
    (hheap : t.heap = (db.raise room).heap)
    (hraised : t.raisedOn r = db.raisedOn r + if room = r then 1 else 0) :
    (t.roomAt r).subscribers.toNat = t.raisedOn r % 2 ^ 16 := by
  have hold := hs.counted r hr
  have hroom : t.roomAt r = if room = r then { db.roomAt r with
      subscribers := (db.roomAt r).subscribers + 1 } else db.roomAt r := by
    unfold roomAt
    rw [hheap]
    exact roomAt_modify _ _ _ _ hr
  rw [hroom, hraised]
  by_cases heq : room = r
  · simp only [heq, if_true, UInt16.toNat_add, UInt16.toNat_one]
    omega
  · simp only [heq, if_false]
    omega

theorem Sound.step (hs : Sound db) {checks : Bool} {e : Event} {t : Db} {o : List Obs}
    (h : Steps checks db e t o) : Sound t := by
  cases h with
  | request task =>
      refine ⟨hs.rooms, hs.subscriptions, fun x hx room hp => ?_, fun room hr => ?_⟩
      · rcases List.mem_append.mp hx with hx | hx
        · exact hs.handlers x hx room hp
        · obtain rfl := List.mem_singleton.mp hx
          simp at hp
      · have hraised : db.raisedOn room = ({ db with
            handlers := db.handlers ++ [{ task, progress := .start }] } : Db).raisedOn room := by
          simp [raisedOn, liveOn, panickedOn, List.countP_append]
        rw [← hraised]
        exact hs.counted room hr
  | readFound hget hfound =>
      refine hs.setHandler hget (by simp) (by simp) fun room hroom => ?_
      cases hroom
      exact hs.rooms _ (lookupRead_some hfound).1
  | readMissed hget _ => exact hs.setHandler hget (by simp) (by simp) (by simp)
  | writeFound hget hroom _ =>
      refine hs.setHandler hget (by simp) (by simp) fun room hr => ?_
      cases hr
      exact hs.rooms _ hroom
  | writeNew hget _ =>
      refine hs.insertRoom.setHandler hget (by simp) (by simp) fun room hr => ?_
      cases hr
      simp [Db.insertRoom]
  | @subscribed h last room nextEvent hget _ =>
      -- one subscription more, and one more in the counter of its room
      have hlen : ((db.raise room).setHandler h (.subscribe last) .returned).heap.length =
          db.heap.length := List.length_modify ..
      have hin : room < db.heap.length :=
        hs.handlers _ (List.mem_of_getElem? hget) room (.inl rfl)
      refine ⟨fun r hr => ?_, fun sub hsub => ?_, fun x hx r hp => ?_, fun r hr => ?_⟩
      · rw [hlen]
        exact hs.rooms r hr
      · rw [hlen]
        rcases List.mem_append.mp hsub with hsub | hsub
        · exact hs.subscriptions sub hsub
        · obtain rfl := List.mem_singleton.mp hsub
          exact hin
      · rw [hlen]
        rcases List.mem_or_eq_of_mem_set hx with hx | rfl
        · exact hs.handlers x hx r hp
        · simp at hp
      · rw [hlen] at hr
        refine counted_raise hs room hr rfl ?_
        have hpan := panickedOn_setHandler hget (.subscribe last) .returned r
        simp only [raisedOn, liveOn, List.countP_append, List.countP_singleton, Bool.true_and,
          beq_iff_eq]
        change _ + (db.setHandler h (.subscribe last) .returned).panickedOn r = _
        simp only [reduceCtorEq, beq_iff_eq, if_false] at hpan
        omega
  | @panicked h last room p hget _ =>
      -- the counter was raised before the panic, for a subscription that never comes
      have hlen : ((db.raise room).setHandler h (.subscribe last) (.panicked room)).heap.length =
          db.heap.length := List.length_modify ..
      have hin : room < db.heap.length :=
        hs.handlers _ (List.mem_of_getElem? hget) room (.inl rfl)
      refine ⟨fun r hr => ?_, fun sub hsub => ?_, fun x hx r hp => ?_, fun r hr => ?_⟩
      · rw [hlen]
        exact hs.rooms r hr
      · rw [hlen]
        exact hs.subscriptions sub hsub
      · rw [hlen]
        rcases List.mem_or_eq_of_mem_set hx with hx | rfl
        · exact hs.handlers x hx r hp
        · rcases hp with hp | hp
          · cases hp
          · cases hp
            exact hin
      · rw [hlen] at hr
        refine counted_raise hs room hr rfl ?_
        have hpan := panickedOn_setHandler hget (.subscribe last) (.panicked room) r
        simp only [reduceCtorEq, beq_iff_eq, if_false, Progress.panicked.injEq] at hpan
        change db.liveOn r + (db.setHandler h (.subscribe last) (.panicked room)).panickedOn r = _
        unfold raisedOn
        omega
  | @published h message room hget =>
      -- publishing wakes subscriptions and ends none
      have hlen : (db.publish room message).heap.length = db.heap.length := List.length_modify ..
      have hpub : Sound (db.publish room message) := by
        refine ⟨fun r hr => ?_, fun sub hsub => ?_, fun x hx r hp => ?_, fun r hr => ?_⟩
        · rw [hlen]
          exact hs.rooms r hr
        · rw [hlen]
          obtain ⟨sub', hsub', rfl⟩ := List.mem_map.mp hsub
          unfold notify
          split <;> exact hs.subscriptions sub' hsub'
        · rw [hlen]
          exact hs.handlers x hx r hp
        · rw [hlen] at hr
          have hroom : ((db.publish room message).roomAt r).subscribers =
              (db.roomAt r).subscribers := by
            unfold roomAt publish
            rw [roomAt_modify _ _ _ _ hr]
            split <;> rfl
          rw [hroom, hs.counted r hr]
          unfold raisedOn
          rw [liveOn_publish]
          rfl
      exact hpub.setHandler hget (by simp) (by simp) (by simp)
  | returned hget _ _ _ _ => exact hs.setSubscription hget rfl rfl
  | overflowed hget hlive _ _ _ => exact hs.closeSubscription hget hlive
  | awaits hget _ _ _ => exact hs.setSubscription hget rfl rfl
  | woken hget _ _ => exact hs.setSubscription hget rfl rfl
  | closed hget hlive => exact hs.closeSubscription hget hlive

/-! ## Who reads the current room -/

/-- A write section that is about to replace the room finds no `/subscribe`
handler between its lookup of that room and its `fetch_add`, and a counter
that has not come round: fewer than `2 ^ 16` increments stand. -/
def Undisturbed (db : Db) : Event → Prop
  | .write _ => ∀ room, db.rooms roomKey = some room → (db.roomAt room).isAbandoned →
      (∀ x ∈ db.handlers, ∀ last, x ≠ ⟨.subscribe last, .found room⟩) ∧
        db.raisedOn room < 2 ^ 16
  | _ => True

/-- The handler is about to enter the room as a subscriber. -/
def enters (room : Nat) : Handler → Bool
  | ⟨.subscribe _, .found r⟩ => r = room
  | _ => false

theorem enters_eq_false_iff {x : Handler} {room : Nat} :
    enters room x = false ↔ ∀ last, x ≠ ⟨.subscribe last, .found room⟩ := by
  obtain ⟨task, progress⟩ := x
  cases task <;> cases progress <;> simp [enters]

instance (db : Db) (e : Event) : Decidable (Undisturbed db e) :=
  match e with
  | .write _ => decidable_of_iff (∀ room ∈ db.rooms roomKey, (db.roomAt room).isAbandoned = true →
      (∀ x ∈ db.handlers, enters room x = false) ∧ db.raisedOn room < 2 ^ 16)
      (by simp only [Undisturbed, enters_eq_false_iff, Option.mem_def])
  | .request _ | .read _ | .finish _ | .poll _ | .wake _ | .close _ => .isTrue trivial

/-- Live subscriptions read the room the map holds, and handlers on their way
to one have found it. -/
structure Current (db : Db) : Prop where
  live : ∀ sub ∈ db.subscriptions, sub.live = true → db.rooms roomKey = some sub.room
  pending : ∀ x ∈ db.handlers, ∀ last room, x = ⟨.subscribe last, .found room⟩ →
    db.rooms roomKey = some room

theorem Current.empty : Current empty where
  live _ h := by cases h
  pending _ h := by cases h

theorem Current.live_set (hc : Current db) {k : Nat} {sub sub' : Subscription}
    (hget : db.subscriptions[k]? = some sub) (hroom : sub'.room = sub.room)
    (hlive : sub'.live = sub.live) :
    ∀ s ∈ db.subscriptions.set k sub', s.live = true → db.rooms roomKey = some s.room := by
  intro s hs h
  rcases List.mem_or_eq_of_mem_set hs with hs | rfl
  · exact hc.live s hs h
  · rw [hroom]
    exact hc.live sub (List.mem_of_getElem? hget) (hlive ▸ h)

theorem Current.pending_set (hc : Current db) {h : Nat} {x : Handler}
    (hx : ∀ last room, x = ⟨.subscribe last, .found room⟩ → db.rooms roomKey = some room) :
    ∀ y ∈ db.handlers.set h x, ∀ last room, y = ⟨.subscribe last, .found room⟩ →
      db.rooms roomKey = some room := by
  intro y hy last room heq
  rcases List.mem_or_eq_of_mem_set hy with hy | rfl
  · exact hc.pending y hy last room heq
  · exact hx last room heq

theorem Current.live_close (hc : Current db) {k : Nat} (sub : Subscription) :
    ∀ s ∈ db.subscriptions.set k { sub with live := false }, s.live = true →
      db.rooms roomKey = some s.room := by
  intro s hs h
  rcases List.mem_or_eq_of_mem_set hs with hs | rfl
  · exact hc.live s hs h
  · cases h

/-- Where the room is replaced nobody is there. -/
theorem nobody_at_write (hs : Sound db) (hc : Current db) {h : Nat}
    (hg : Undisturbed db (.write h))
    (hnew : ∀ room, db.rooms roomKey = some room → (db.roomAt room).isAbandoned) :
    (∀ sub ∈ db.subscriptions, sub.live = false) ∧
      ∀ x ∈ db.handlers, ∀ last room, x ≠ ⟨.subscribe last, .found room⟩ := by
  constructor
  · intro sub hsub
    by_contra hlive
    have hroom := hc.live sub hsub (by simpa using hlive)
    obtain ⟨-, hfew⟩ := hg _ hroom (hnew _ hroom)
    have hzero : (db.roomAt sub.room).subscribers = 0 := by
      simpa [Room.isAbandoned] using hnew _ hroom
    have hcount := hs.counted sub.room (hs.rooms _ hroom)
    rw [hzero, UInt16.toNat_zero, Nat.mod_eq_of_lt hfew] at hcount
    have hnone : db.liveOn sub.room = 0 := by
      unfold raisedOn at hcount
      omega
    have := List.countP_eq_zero.mp hnone sub hsub
    simp_all
  · intro x hx last room heq
    have hroom := hc.pending x hx last room heq
    exact (hg _ hroom (hnew _ hroom)).1 x hx last heq

theorem Current.step (hs : Sound db) (hc : Current db) {checks : Bool} {e : Event} {t : Db}
    {o : List Obs} (hg : Undisturbed db e) (h : Steps checks db e t o) : Current t := by
  cases h with
  | request task =>
      refine ⟨hc.live, fun x hx last room heq => ?_⟩
      rcases List.mem_append.mp hx with hx | hx
      · exact hc.pending x hx last room heq
      · obtain rfl := List.mem_singleton.mp hx
        cases heq
  | readFound hget hfound =>
      refine ⟨hc.live, hc.pending_set fun last room heq => ?_⟩
      cases heq
      exact (lookupRead_some hfound).1
  | readMissed hget _ => exact ⟨hc.live, hc.pending_set fun _ _ heq => by cases heq⟩
  | writeFound hget hroom _ =>
      refine ⟨hc.live, hc.pending_set fun last room heq => ?_⟩
      cases heq
      exact hroom
  | writeNew hget hnew =>
      -- a room is replaced only when nobody lives in it or is about to
      obtain ⟨hdead, hnone⟩ := nobody_at_write hs hc hg hnew
      refine ⟨fun sub hsub hlive => ?_, fun x hx last room heq => ?_⟩
      · exact absurd hlive (by simp [hdead sub hsub])
      · rcases List.mem_or_eq_of_mem_set hx with hx | rfl
        · exact absurd heq (hnone x hx last room)
        · cases heq
          simp [Db.insertRoom, Db.setHandler]
  | subscribed hget _ =>
      have hroom := hc.pending _ (List.mem_of_getElem? hget) _ _ rfl
      refine ⟨fun sub hsub hlive => ?_, hc.pending_set fun _ _ heq => by cases heq⟩
      rcases List.mem_append.mp hsub with hsub | hsub
      · exact hc.live sub hsub hlive
      · obtain rfl := List.mem_singleton.mp hsub
        exact hroom
  | panicked hget _ => exact ⟨hc.live, hc.pending_set fun _ _ heq => by cases heq⟩
  | published hget =>
      refine ⟨fun sub hsub hlive => ?_, hc.pending_set fun _ _ heq => by cases heq⟩
      obtain ⟨sub', hsub', rfl⟩ := List.mem_map.mp hsub
      revert hlive
      unfold notify
      split <;> exact hc.live sub' hsub'
  | returned hget _ _ _ _ => exact ⟨hc.live_set hget rfl rfl, hc.pending⟩
  | overflowed hget _ _ _ _ => exact ⟨hc.live_close _, hc.pending⟩
  | awaits hget _ _ _ => exact ⟨hc.live_set hget rfl rfl, hc.pending⟩
  | woken hget _ _ => exact ⟨hc.live_set hget rfl rfl, hc.pending⟩
  | closed hget _ => exact ⟨hc.live_close _, hc.pending⟩

/-! ## Runs -/

variable {checks : Bool}

theorem subscription_of_set {k k' : Nat} {sub₀ sub' sub : Subscription}
    (hget : db.subscriptions[k']? = some sub₀) (hroom : sub'.room = sub₀.room)
    (hlive : sub'.live = true → sub₀.live = true)
    (hsub : (db.subscriptions.set k' sub')[k]? = some sub) :
    ∃ sub₀, db.subscriptions[k]? = some sub₀ ∧ sub₀.room = sub.room ∧
      (sub.live = true → sub₀.live = true) := by
  by_cases heq : k' = k
  · subst heq
    rw [List.getElem?_set_self (List.getElem?_eq_some_iff.mp hget).1] at hsub
    cases hsub
    exact ⟨sub₀, hget, hroom.symm, hlive⟩
  · rw [List.getElem?_set_ne heq] at hsub
    exact ⟨sub, hsub, rfl, id⟩

/-- A subscription keeps its room, and once closed stays closed. -/
theorem subscription_before {e : Event} {t : Db} {o : List Obs} (h : Steps checks db e t o)
    {k : Nat} (hk : k < db.subscriptions.length) {sub : Subscription}
    (hsub : t.subscriptions[k]? = some sub) :
    ∃ sub₀, db.subscriptions[k]? = some sub₀ ∧ sub₀.room = sub.room ∧
      (sub.live = true → sub₀.live = true) := by
  cases h with
  | returned hget _ _ _ _ => exact subscription_of_set hget (by rfl) (by exact id) hsub
  | overflowed hget _ _ _ _ => exact subscription_of_set hget (by rfl) (by simp) hsub
  | awaits hget _ _ _ => exact subscription_of_set hget (by rfl) (by exact id) hsub
  | woken hget _ _ => exact subscription_of_set hget (by rfl) (by exact id) hsub
  | closed hget _ => exact subscription_of_set hget (by rfl) (by simp) hsub
  | subscribed _ _ =>
      rw [List.getElem?_append_left hk] at hsub
      exact ⟨sub, hsub, rfl, id⟩
  | @published _ message room _ =>
      have hmap : (db.subscriptions.map (notify room))[k]? = some sub := hsub
      rw [List.getElem?_map] at hmap
      obtain ⟨sub₀, hget, rfl⟩ := Option.map_eq_some_iff.mp hmap
      refine ⟨sub₀, hget, ?_⟩
      unfold notify
      split <;> exact ⟨rfl, id⟩
  | _ => exact ⟨sub, hsub, rfl, id⟩

theorem subscriptions_length_le {e : Event} {t : Db} {o : List Obs} (h : Steps checks db e t o) :
    db.subscriptions.length ≤ t.subscriptions.length := by
  cases h <;>
    simp [setHandler, setSubscription, closeSubscription, publish, insertRoom, raise, lower]

/-- The handlers that were started after the first `n` found a room that a
given subscription reads, if any, and published there. -/
def FollowedBy (n : Nat) (sub : Subscription) (os : List Obs) (db : Db) : Prop :=
  (∀ h task room, n ≤ h → db.handlers[h]? = some ⟨task, .found room⟩ → room = sub.room) ∧
    ∀ h room message, n ≤ h → .published h room message ∈ os → room = sub.room

theorem FollowedBy.step {n : Nat} {sub : Subscription} {os : List Obs}
    (hf : FollowedBy n sub os db) (hs : Sound db) (hc : Current db) {e : Event} {t : Db}
    {o : List Obs} (hg : Undisturbed db e) (h : Steps checks db e t o)
    (hsub : ∃ sub₀ ∈ db.subscriptions, sub₀.room = sub.room ∧ sub₀.live = true) :
    FollowedBy n sub (os ++ o) t := by
  obtain ⟨sub₀, hmem, hroom, hlive⟩ := hsub
  have hcur : db.rooms roomKey = some sub.room := hroom ▸ hc.live sub₀ hmem hlive
  -- a handler that moves on finds the current room, or leaves its room behind
  have hset : ∀ {h' : Nat} {x : Handler},
      (∀ task room, x = ⟨task, .found room⟩ → room = sub.room) →
      ∀ h task room, n ≤ h → (db.handlers.set h' x)[h]? = some ⟨task, .found room⟩ →
        room = sub.room := by
    intro h' x hx h task room hn hget
    by_cases heq : h' = h
    · subst heq
      rw [List.getElem?_set_self'] at hget
      obtain ⟨_, -, heq⟩ := Option.map_eq_some_iff.mp hget
      exact hx task room heq
    · rw [List.getElem?_set_ne heq] at hget
      exact hf.1 h task room hn hget
  cases h with
  | request task =>
      refine ⟨fun h task room hn hget => ?_, by simpa using hf.2⟩
      by_cases hlt : h < db.handlers.length
      · rw [List.getElem?_append_left hlt] at hget
        exact hf.1 h task room hn hget
      · rw [List.getElem?_append_right (by omega)] at hget
        cases List.mem_singleton.mp (List.mem_of_getElem? hget)
  | readFound hget hfound =>
      refine ⟨hset fun task room heq => ?_, by simpa using hf.2⟩
      cases heq
      exact Option.some.inj ((lookupRead_some hfound).1.symm.trans hcur)
  | readMissed hget _ => exact ⟨hset (fun _ _ heq => by cases heq), by simpa using hf.2⟩
  | writeFound hget hfound _ =>
      refine ⟨hset fun task room heq => ?_, by simpa using hf.2⟩
      cases heq
      exact Option.some.inj (hfound.symm.trans hcur)
  | writeNew hget hnew =>
      -- no new room comes up while the subscription lives in the old one
      have hdead := (nobody_at_write hs hc hg hnew).1 sub₀ hmem
      exact absurd hlive (by simp [hdead])
  | subscribed hget _ => exact ⟨hset (fun _ _ heq => by cases heq), by simpa using hf.2⟩
  | panicked hget _ => exact ⟨hset (fun _ _ heq => by cases heq), by simpa using hf.2⟩
  | published hget =>
      refine ⟨hset (fun _ _ heq => by cases heq), fun h room message hn hp => ?_⟩
      rcases List.mem_append.mp hp with hp | hp
      · exact hf.2 h room message hn hp
      · -- the handler that publishes had found the subscription's room
        cases List.mem_singleton.mp hp
        exact hf.1 _ _ _ hn hget
  | returned _ _ _ _ _ => exact ⟨hf.1, by simpa using hf.2⟩
  | overflowed _ _ _ _ _ => exact ⟨hf.1, by simpa using hf.2⟩
  | awaits _ _ _ _ => exact ⟨hf.1, by simpa using hf.2⟩
  | woken _ _ _ => exact ⟨hf.1, by simpa using hf.2⟩
  | closed _ _ => exact ⟨hf.1, by simpa using hf.2⟩

end

/-- Both invariants hold along guarded runs. -/
theorem sound_current_of_run {checks : Bool} {os : List Obs} {t : Db}
    (hrun : Run (step checks) Undisturbed empty os t) : Sound t ∧ Current t := by
  refine hrun.invariant (fun _ s => Sound s ∧ Current s) ⟨.empty, .empty⟩ ?_
  intro os s e t o _ hinv hg hstep
  have hs := step_cases hstep
  exact ⟨hinv.1.step hs, hinv.2.step hinv.1 hg hs⟩

/-- A subscription that is live after the second part of a run was live before
it, and all along the handlers started in that part followed it. -/
theorem followedBy_of_run {checks : Bool} {os os' : List Obs} {m t : Db}
    (hbefore : Run (step checks) Undisturbed empty os m)
    (hrun : Run (step checks) Undisturbed m os' t) {k : Nat} (hk : k < m.subscriptions.length)
    {sub : Subscription} (hsub : t.subscriptions[k]? = some sub) (hlive : sub.live = true) :
    FollowedBy m.handlers.length sub os' t := by
  have hinv : m.subscriptions.length ≤ t.subscriptions.length ∧
      ∀ sub, t.subscriptions[k]? = some sub → sub.live = true →
        FollowedBy m.handlers.length sub os' t := by
    clear hsub hlive
    refine hrun.invariant (fun os s => m.subscriptions.length ≤ s.subscriptions.length ∧
      ∀ sub, s.subscriptions[k]? = some sub → sub.live = true →
        FollowedBy m.handlers.length sub os s) ⟨Nat.le_refl _, fun sub _ _ => ?_⟩ ?_
    · -- no handler has a number from here on yet
      refine ⟨fun h task room hn hget => ?_, fun h room message _ hp => by cases hp⟩
      have := (List.getElem?_eq_some_iff.mp hget).1
      omega
    · intro os s e t o hr hinv hg hstep
      have hs := step_cases hstep
      refine ⟨Nat.le_trans hinv.1 (subscriptions_length_le hs), fun sub hsub hlive => ?_⟩
      obtain ⟨hsound, hcurrent⟩ := sound_current_of_run (hbefore.append hr)
      -- a subscription that is live now was live before, in the same room
      obtain ⟨sub₀, hget, hroom, hlive₀⟩ :=
        subscription_before hs (Nat.lt_of_lt_of_le hk hinv.1) hsub
      have hf : FollowedBy m.handlers.length sub os s := by
        unfold FollowedBy
        rw [← hroom]
        exact hinv.2 sub₀ hget (hlive₀ hlive)
      exact hf.step hsound hcurrent hg hs
        ⟨sub₀, List.mem_of_getElem? hget, hroom, hlive₀ hlive⟩
  exact hinv.2 sub hsub hlive

/-- **Nobody is left behind.** In an undisturbed run every live subscription
reads the room the map holds, and whatever a handler started after the
subscription broadcasts is published to the room it reads. -/
theorem live_subscription_reads_current {checks : Bool} {os os' : List Obs} {m t : Db}
    (hbefore : Run (step checks) Undisturbed empty os m)
    (hrun : Run (step checks) Undisturbed m os' t) :
    (∀ sub ∈ t.subscriptions, sub.live = true → t.rooms roomKey = some sub.room) ∧
      ∀ k sub, k < m.subscriptions.length → t.subscriptions[k]? = some sub → sub.live = true →
        ∀ h room message, m.handlers.length ≤ h → .published h room message ∈ os' →
          room = sub.room := by
  refine ⟨(sound_current_of_run (hbefore.append hrun)).2.live, ?_⟩
  intro k sub hk hsub hlive h room message hn hp
  exact (followedBy_of_run hbefore hrun hk hsub hlive).2 h room message hn hp

/-- A room is left and replaced, and two subscribers come to the new one; both get what is
broadcast then. -/
theorem live_subscription_reads_current_replaced :
    ∃ os os' m t, Run (step true) Undisturbed empty os m ∧ Run (step true) Undisturbed m os' t ∧
      m.rooms roomKey = some 1 ∧ m.liveOn 1 = 2 ∧ .published 3 1 "hello" ∈ os' ∧
      (∀ sub ∈ t.subscriptions, sub.live = true → t.rooms roomKey = some sub.room) ∧
      ∀ k sub, k < m.subscriptions.length → t.subscriptions[k]? = some sub → sub.live = true →
        ∀ h room message, m.handlers.length ≤ h → .published h room message ∈ os' →
          room = sub.room := by
  obtain ⟨os, m, hbefore, hm⟩ := Run.ofGuardedTest (step true) Undisturbed empty
    [.request (.subscribe none), .read 0, .write 0, .finish 0, .close 0,
      .request (.subscribe none), .read 1, .write 1, .finish 1, .request (.subscribe none), .read 2,
      .finish 2]
    (fun r => decide (r.1.rooms roomKey = some 1 ∧ r.1.liveOn 1 = 2) &&
      (exec (guarded (step true) Undisturbed) r.1
        [.request (.broadcast "hello"), .read 3, .finish 3]).any
          fun r' : Db × List Obs => decide (.published 3 1 "hello" ∈ r'.2))
    (by decide +kernel)
  obtain ⟨hrooms, hafter⟩ := Bool.and_eq_true_iff.mp hm
  obtain ⟨hroom, hlive⟩ := of_decide_eq_true hrooms
  obtain ⟨os', t, hrun, hpublished⟩ := Run.ofGuardedTest (step true) Undisturbed m _ _ hafter
  exact ⟨os, os', m, t, hbefore, hrun, hroom, hlive, of_decide_eq_true hpublished,
    live_subscription_reads_current hbefore hrun⟩

/-- Two subscribers at start-up: the second one's write section comes between
the first one's and its `fetch_add`. -/
theorem live_subscription_orphaned :
    ∃ os t, Run (step true) anyStep empty os t ∧
      ∃ sub ∈ t.subscriptions, sub.live = true ∧ t.rooms roomKey ≠ some sub.room := by
  have hrun : Run (step true) anyStep empty _ _ :=
    .ofExec rfl (admits_anyStep [.request (.subscribe none), .request (.subscribe none),
      .read 0, .write 0, .read 1, .write 1, .finish 0, .finish 1] empty)
  exact ⟨_, _, hrun, { room := 0, nextEvent := 0, waiting := none, live := true },
    by decide, rfl, by decide⟩

end Db

end MpcServer.Messenger

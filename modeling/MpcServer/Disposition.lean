import MpcServer.Indices

/-!
# The first look at an envelope and the second

`handle_incoming` and `handle_retry` check, decrypt and route a message, each in its
own copy of the code. Both leave it to the same callees; they differ in what they make
of a refusal. The first drops what is for another party and what does not decrypt; the
second puts whatever is refused back in the queue.
-/

namespace MpcServer

open Rust Rust.Method

variable {C : Crates}

/-- What a handler on the message path does with the message it was given. -/
inductive Disposition
  | delivered (msg : Arrival)
  /-- checked and decrypted, but no runner takes it yet -/
  | awaiting (msg : Arrival)
  /-- to be checked again -/
  | rescheduled (msg : Arrival)
  | dropped
  | panicked
  deriving DecidableEq

namespace Coordinator

/-- The message an effect of the message path is about, and what it says of it. -/
def dispositionOf : Effect C → Disposition
  | .schedule _ m => if m.checkPassed then .awaiting m.message else .rescheduled m.message
  | .deliverKG _ m => .delivered m.wireMessage
  | .deliverO _ m => .delivered m.wireMessage
  | .deliverS _ m => .delivered m.wireMessage
  | _ => .dropped

/-- The disposition of a handler's run, read off its effects. -/
def disposition (run : Except (Stop String) Unit × Coordinator C × List (Effect C)) :
    Disposition :=
  if isPanic run.1 then .panicked
  else (run.2.2.head?.map dispositionOf).getD .dropped

/-! ## Routing -/

/-- What comes of a message that is to be tried again: with the limit passed it is given
up, and where the counter overflows the call panics. -/
def again (C : Crates) (attempts : UInt16) (d : Disposition) : Disposition :=
  match addU16 C.overflowChecks attempts 1 with
  | .ok next => if 33 < next then .dropped else d
  | .error _ => .panicked

theorem again_first (d : Disposition) : again C 0 d = d := by
  have hnext : addU16 C.overflowChecks 0 1 = .ok (0 + 1) := addU16_of_lt (by decide)
  unfold again
  rw [hnext]
  exact if_neg (by decide)

/-- What becomes of a message that was let through. -/
def routing (c : Coordinator C) (attempts : UInt16) (msg : Arrival) : Disposition :=
  if c.deliveries msg = [] then again C attempts (.awaiting msg) else .delivered msg

theorem dispositionOf_mem_deliveries {c : Coordinator C} {msg : Arrival} {e : Effect C}
    (h : e ∈ c.deliveries msg) : dispositionOf e = .delivered msg := by
  simp only [deliveries, List.mem_append, Option.mem_toList, delivery, Option.bind_eq_some_iff,
    Option.map_eq_some_iff] at h
  obtain ((⟨_, -, _, -, rfl⟩ | ⟨_, -, _, -, rfl⟩) | ⟨_, -, _, -, rfl⟩) := h <;> rfl

theorem disposition_handleIncomingUnsafe (c : Coordinator C) (msg : Arrival) (initTs : Nat)
    (attempts : UInt16) :
    disposition ((handleIncomingUnsafe msg initTs attempts).run c) = c.routing attempts msg := by
  obtain ⟨r, f, hrun, hpanic, hrouted⟩ := handleIncomingUnsafe_run msg initTs attempts c
  unfold disposition routing again
  rw [hrun, hpanic]
  cases hrouted with
  | delivered hsome =>
      rw [if_neg hsome]
      cases hhead : c.deliveries msg with
      | nil => exact absurd hhead hsome
      | cons e es =>
          have he : e ∈ c.deliveries msg := hhead ▸ List.mem_cons_self
          simp [effects, hhead, Fate.panics, dispositionOf_mem_deliveries he]
  | @retried next hnone hadd =>
      rw [if_pos hnone, hadd]
      by_cases hlimit : 33 < next
      · simp [effects, retryEffects, hlimit, Fate.panics, dispositionOf]
      · simp [effects, retryEffects, hlimit, Fate.panics, dispositionOf]
  | panicked hnone hadd =>
      rw [if_pos hnone, hadd]
      rfl

/-! ## The two paths -/

variable {c : Coordinator C} {ctx : Ctx}

theorem disposition_handleIncoming {msg : Arrival} {piece : String}
    (hpiece : byteSlice c.pkStr 2 10 = .ok piece) (hroom : containsStr msg.room piece = true) :
    disposition ((handleIncoming msg ctx).run c) =
      match validSenderAndReceiver c ctx.toAmbient msg with
      | .error (.panic _) => .panicked
      | .error (.err .notForMe) => .dropped
      | .error (.err _) => .rescheduled msg
      | .ok () =>
          match maybeDecrypt c.sk msg with
          | .error _ => .dropped
          | .ok msg' => c.routing 0 msg' := by
  unfold handleIncoming
  simp only [run_bind, run_self, hpiece, run_orPanic_ok, hroom, Bool.not_true,
    Bool.false_eq_true, if_false, attempt_lift_run]
  cases validSenderAndReceiver c ctx.toAmbient msg with
  | ok u =>
      cases maybeDecrypt c.sk msg with
      | ok msg' =>
          simp only [List.nil_append]
          exact disposition_handleIncomingUnsafe c msg' ctx.now 0
      | error e => rfl
  | error stop =>
      cases stop with
      | panic p => rfl
      | err e => cases e <;> rfl

/-- A message that is refused at a retry goes back as it came, as long as it may. -/
theorem disposition_again (c : Coordinator C) (m : RetryMessage) :
    disposition (Method.run (ε := String) (do
        let next ← orPanic (addU16 C.overflowChecks m.attempts 1)
        retry { initialTimestamp := m.initialTimestamp, attempts := next, checkPassed := false,
                message := m.message }) c) = again C m.attempts (.rescheduled m.message) := by
  unfold again
  cases hnext : addU16 C.overflowChecks m.attempts 1 with
  | ok next =>
      rw [run_bind_ok (run_orPanic_of_ok rfl c)]
      by_cases hlimit : 33 < next
      · simp [retry_run, retryEffects, hlimit, disposition, dispositionOf, isPanic]
      · simp [retry_run, retryEffects, hlimit, disposition, dispositionOf, isPanic]
  | error p =>
      rw [run_bind_error (run_orPanic_of_error rfl c)]
      rfl

theorem disposition_handleRetry (c : Coordinator C) (ctx : Ctx) (m : RetryMessage) :
    disposition ((handleRetry m ctx).run c) =
      match validSenderAndReceiver c ctx.toAmbient m.message with
      | .error (.panic _) => .panicked
      | .error (.err _) => again C m.attempts (.rescheduled m.message)
      | .ok () =>
          match maybeDecrypt c.sk m.message with
          | .error _ => again C m.attempts (.rescheduled m.message)
          | .ok msg' => c.routing m.attempts msg' := by
  unfold handleRetry precheckMessage
  simp only [run_bind, run_attempt, run_self, run_lift]
  cases validSenderAndReceiver c ctx.toAmbient m.message with
  | ok u =>
      cases maybeDecrypt c.sk m.message with
      | ok msg' =>
          simp only [run_question_ok, List.nil_append]
          exact disposition_handleIncomingUnsafe c msg' m.initialTimestamp m.attempts
      | error e =>
          simp only [run_question_error, List.nil_append]
          exact disposition_again c m
  | error stop =>
      cases stop with
      | panic p => rfl
      | err e =>
          simp only [run_question_error, List.nil_append]
          exact disposition_again c m

/-! ## Where they part -/

/-- The room leads to `group`, the sender is one of it, and the payload reads as `m`. -/
structure FromMember (c : Coordinator C) (amb : Ambient) (msg : Arrival) (group : PublicKeyGroup)
    (m : GenericProtocolMessage C.RawValue) : Prop where
  room : ∃ groupId, extractGroupId msg.room = .ok groupId ∧
    retrieveGroup c.db amb groupId = .ok group
  sender : msg.senderPublicKey ∈ group.publicKeys
  payload : C.genericMessage.read msg.payload = some m

/-- A member's message for another position than this server's. -/
def ForAnother (c : Coordinator C) (amb : Ambient) (msg : Arrival) : Prop :=
  ∃ group m i j, FromMember c amb msg group m ∧ group.getI = .ok i ∧ m.receiver = some j ∧ j ≠ i

/-- A member's message for this server that does not decrypt. -/
def Garbled (c : Coordinator C) (amb : Ambient) (msg : Arrival) : Prop :=
  ∃ group m i, FromMember c amb msg group m ∧ group.getI = .ok i ∧ m.receiver = some i ∧
    (maybeDecrypt c.sk msg).isOk = false

variable {amb : Ambient} {msg : Arrival}

/-- The check of a member's message looks at the receiver only. -/
theorem FromMember.valid {group : PublicKeyGroup} {m : GenericProtocolMessage C.RawValue}
    (h : FromMember c amb msg group m) :
    validSenderAndReceiver c amb msg =
      match m.receiver with
      | none => .ok ()
      | some receiver =>
          match group.getI with
          | .error p => .error (.panic p)
          | .ok i => if receiver ≠ i then .error (.err .notForMe) else .ok () := by
  obtain ⟨groupId, hid, hget⟩ := h.room
  obtain ⟨i, hi⟩ := Option.isSome_iff_exists.mp
    ((group.getIndex_isSome_iff msg.senderPublicKey).mpr h.sender)
  cases hreceiver : m.receiver with
  | none => simp [validSenderAndReceiver, hid, hget, hi, h.payload, hreceiver]
  | some receiver =>
      cases hown : group.getI <;>
        simp [validSenderAndReceiver, hid, hget, hi, h.payload, hreceiver, hown]

/-- Only a member's message gets as far as its receiver. -/
theorem fromMember_of_valid {x : Except (Stop CoordinatorError) Unit}
    (h : validSenderAndReceiver c amb msg = x) (hx : x = .ok () ∨ x = .error (.err .notForMe)) :
    ∃ group m, FromMember c amb msg group m := by
  unfold validSenderAndReceiver at h
  split at h
  · rcases hx with rfl | rfl <;> cases h
  · rename_i groupId hid
    split at h
    · rcases hx with rfl | rfl <;> cases h
    · rename_i group hget
      split at h
      · rcases hx with rfl | rfl <;> cases h
      · rename_i index hindex
        have hmember : msg.senderPublicKey ∈ group.publicKeys :=
          (group.getIndex_isSome_iff _).mp (by rw [hindex]; rfl)
        split at h
        · rcases hx with rfl | rfl <;> cases h
        · rename_i m hm
          exact ⟨group, m, ⟨groupId, hid, hget⟩, hmember, hm⟩

theorem notForMe_iff :
    validSenderAndReceiver c amb msg = .error (.err .notForMe) ↔ ForAnother c amb msg := by
  constructor
  · intro h
    obtain ⟨group, m, hm⟩ := fromMember_of_valid h (.inr rfl)
    rw [hm.valid] at h
    cases hreceiver : m.receiver with
    | none => simp [hreceiver] at h
    | some j =>
        cases hi : group.getI with
        | error p => simp [hreceiver, hi] at h
        | ok i =>
            refine ⟨group, m, i, j, hm, hi, hreceiver, fun heq => ?_⟩
            simp [hreceiver, hi, heq] at h
  · rintro ⟨group, m, i, j, hm, hi, hreceiver, hne⟩
    simp [hm.valid, hreceiver, hi, hne]

/-- A broadcast is not decrypted at all. -/
theorem garbled_iff :
    (validSenderAndReceiver c amb msg = .ok () ∧ (maybeDecrypt c.sk msg).isOk = false) ↔
      Garbled c amb msg := by
  constructor
  · rintro ⟨h, hdec⟩
    obtain ⟨group, m, hm⟩ := fromMember_of_valid h (.inl rfl)
    rw [hm.valid] at h
    cases hreceiver : m.receiver with
    | none =>
        simp [maybeDecrypt, hm.payload, hreceiver, bind, Except.bind, pure, Except.pure,
          Except.isOk, Except.toBool] at hdec
    | some j =>
        cases hi : group.getI with
        | error p => simp [hreceiver, hi] at h
        | ok i =>
            have hij : j = i := by
              by_contra hne
              simp [hreceiver, hi, hne] at h
            exact ⟨group, m, i, hm, hi, hij ▸ hreceiver, hdec⟩
  · rintro ⟨group, m, i, hm, hi, hreceiver, hdec⟩
    exact ⟨by simp [hm.valid, hreceiver, hi], hdec⟩

/-- No further attempt is needed: a runner takes the message, or the look at it panics. -/
inductive Settled (c : Coordinator C) (amb : Ambient) (msg : Arrival) : Prop
  | taken {msg' : Arrival} : validSenderAndReceiver c amb msg = .ok () →
      maybeDecrypt c.sk msg = .ok msg' → c.deliveries msg' ≠ [] → Settled c amb msg
  | panicked {p : Panic} : validSenderAndReceiver c amb msg = .error (.panic p) →
      Settled c amb msg

/-- When the two looks agree: with a further attempt left, on what is neither for another
party nor garbled; on the last attempt, on these two and on what is settled; and where the
counter overflows, on what is settled. -/
def LooksAlike (c : Coordinator C) (amb : Ambient) (msg : Arrival) (attempts : UInt16) : Prop :=
  match addU16 C.overflowChecks attempts 1 with
  | .ok next =>
      if 33 < next then ForAnother c amb msg ∨ Garbled c amb msg ∨ Settled c amb msg
      else ¬ ForAnother c amb msg ∧ ¬ Garbled c amb msg
  | .error _ => Settled c amb msg

theorem settled_of_passes {msg' : Arrival} (hvalid : validSenderAndReceiver c amb msg = .ok ())
    (hdec : maybeDecrypt c.sk msg = .ok msg') :
    Settled c amb msg ↔ c.deliveries msg' ≠ [] := by
  constructor
  · intro h
    cases h with
    | taken _ hdec' hsome =>
        cases hdec.symm.trans hdec'
        exact hsome
    | panicked hpanic => cases hvalid.symm.trans hpanic
  · exact .taken hvalid hdec

theorem not_settled_of_garbled {e : String} (hvalid : validSenderAndReceiver c amb msg = .ok ())
    (hdec : maybeDecrypt c.sk msg = .error e) : ¬ Settled c amb msg := by
  intro h
  cases h with
  | taken _ hdec' _ => cases hdec.symm.trans hdec'
  | panicked hpanic => cases hvalid.symm.trans hpanic

theorem not_settled_of_refused {e : CoordinatorError}
    (hvalid : validSenderAndReceiver c amb msg = .error (.err e)) : ¬ Settled c amb msg := by
  intro h
  cases h with
  | taken hok _ _ => cases hvalid.symm.trans hok
  | panicked hpanic => cases hvalid.symm.trans hpanic

/-- **The first look and the second.** The two paths make the same of a message exactly in
these cases. What is for another party or does not decrypt is dropped on arrival and kept on
a retry that is not the last. -/
theorem sameDisposition_iff {piece : String} (hpiece : byteSlice c.pkStr 2 10 = .ok piece)
    (hroom : containsStr msg.room piece = true) {m : RetryMessage} (hmsg : m.message = msg)
    (hfresh : m.checkPassed = false) :
    disposition ((handleIncoming msg ctx).run c) =
        disposition ((handleCoordinatorMessage (.retry m) ctx).run c) ↔
      LooksAlike c ctx.toAmbient msg m.attempts := by
  have hretry : handleCoordinatorMessage (.retry m) ctx = (handleRetry m ctx : Call C String Unit) :=
    if_neg (by rw [hfresh]; decide)
  subst hmsg
  rw [hretry, disposition_handleIncoming hpiece hroom, disposition_handleRetry]
  unfold LooksAlike
  rw [← notForMe_iff, ← garbled_iff]
  cases hvalid : validSenderAndReceiver c ctx.toAmbient m.message with
  | ok u =>
      cases hdec : maybeDecrypt c.sk m.message with
      | ok msg' =>
          have hlet : ¬ (Except.ok msg' : Except String Arrival).isOk = false := Bool.noConfusion
          rw [settled_of_passes hvalid hdec]
          by_cases hnone : c.deliveries msg' = []
          · simp only [routing, if_pos hnone, again_first]
            unfold again
            cases addU16 C.overflowChecks m.attempts 1 with
            | error p => simp [hnone]
            | ok next => by_cases hlimit : 33 < next <;> simp [hlimit, hnone, hlet]
          · simp only [routing, if_neg hnone]
            cases addU16 C.overflowChecks m.attempts 1 with
            | error p => simp [hnone]
            | ok next => by_cases hlimit : 33 < next <;> simp [hlimit, hnone, hlet]
      | error e =>
          have hsettled := not_settled_of_garbled hvalid hdec
          have hgarbled : (Except.error e : Except String Arrival).isOk = false := rfl
          unfold again
          cases addU16 C.overflowChecks m.attempts 1 with
          | error p => simp [hsettled]
          | ok next => by_cases hlimit : 33 < next <;> simp [hlimit, hgarbled]
  | error stop =>
      cases stop with
      | panic p =>
          have hsettled : Settled c ctx.toAmbient m.message := .panicked hvalid
          cases addU16 C.overflowChecks m.attempts 1 with
          | error p => simp [hsettled]
          | ok next => by_cases hlimit : 33 < next <;> simp [hlimit, hsettled]
      | err e =>
          have hsettled := not_settled_of_refused hvalid
          unfold again
          cases addU16 C.overflowChecks m.attempts 1 with
          | error p => cases e <;> simp [hsettled]
          | ok next => by_cases hlimit : 33 < next <;> cases e <;> simp [hlimit, hsettled]

end Coordinator

namespace Sample

/-- The group of Alice, Bob and Carol, as Bob stores it. -/
def triosGroup : PublicKeyGroup :=
  { groupId := "73ee5cd6c20e0c08d0639e47", t := 1, publicKeys := keyTexts [.alice, .bob, .carol]
    ownPublicKey := Party.bob.keyText }

/-- Their room. -/
def triosRoom : String := "k1@73ee5cd6c20e0c08d0639e47"

/-- Alice's message, for everybody or for one. -/
def aliceSays (receiver : Option UInt16) : GenericProtocolMessage String :=
  { sender := 1, receiver, body := keygenBodyText 1 }

/-- What Alice may send: a message for all, one for Carol, one for Bob that is not
encrypted. -/
def trio : Scenario where
  messages := [aliceSays none, aliceSays (some 3), aliceSays (some 2)]

/-- Bob's coordinator, which stores the group. -/
def bobOfTrio : Coordinator (crates trio) :=
  (bobsNode trio fun key =>
    if key = triosGroup.groupId then some (.group triosGroup) else none).coordinator

/-- An envelope of Alice's, and the same when it is tried again. -/
def arrivedFromAlice (receiver : Option UInt16) : Arrival :=
  { toWireMessage := fromAlice triosRoom (aliceSays receiver), origin := 0 }

/-- The same message, back from the clock. -/
def againFromAlice (receiver : Option UInt16) : RetryMessage :=
  { initialTimestamp := 0, attempts := 1, checkPassed := false
    message := arrivedFromAlice receiver }

/-- Alice's message for all is looked at alike, whenever it comes. -/
theorem sameDisposition_forAll :
    Coordinator.disposition
        ((Coordinator.handleIncoming (arrivedFromAlice none) firstCtx).run bobOfTrio) =
      Coordinator.disposition ((Coordinator.handleCoordinatorMessage
        (.retry (againFromAlice none)) firstCtx).run bobOfTrio) := by
  have hvalid : Coordinator.validSenderAndReceiver bobOfTrio firstCtx.toAmbient
      (arrivedFromAlice none) = .ok () := by decide
  have hdec : (maybeDecrypt (C := crates trio) bobOfTrio.sk (arrivedFromAlice none)).isOk = true := by
    decide
  have hpiece : byteSlice bobOfTrio.pkStr 2 10 = .ok "c20e0c08" := by decide
  have hroom : containsStr (arrivedFromAlice none).room "c20e0c08" = true := by decide
  have hagain : (againFromAlice none).message = arrivedFromAlice none := rfl
  have halike : bobOfTrio.LooksAlike firstCtx.toAmbient (arrivedFromAlice none) 1 := by
    refine ⟨fun h => ?_, fun h => ?_⟩
    · have hfor := Coordinator.notForMe_iff.mpr h
      rw [hvalid] at hfor
      cases hfor
    · have hgarbled := (Coordinator.garbled_iff.mpr h).2
      rw [hdec] at hgarbled
      cases hgarbled
  exact (Coordinator.sameDisposition_iff hpiece hroom hagain rfl).mpr halike

/-- Alice's message for Carol is dropped when it comes and kept when it is tried again. -/
theorem differs_forCarol :
    ∃ (c : Coordinator (crates trio)) (ctx : Ctx) (piece : String) (m : RetryMessage),
      byteSlice c.pkStr 2 10 = .ok piece ∧ containsStr m.message.room piece = true ∧
      m.checkPassed = false ∧ m.attempts < 33 ∧
      Coordinator.disposition ((Coordinator.handleIncoming m.message ctx).run c) = .dropped ∧
      Coordinator.disposition ((Coordinator.handleCoordinatorMessage (.retry m) ctx).run c) =
        .rescheduled m.message := by
  refine ⟨bobOfTrio, firstCtx, "c20e0c08", againFromAlice (some 3), ?_, ?_, rfl, ?_, ?_, ?_⟩ <;>
    decide

end Sample

end MpcServer

import MpcServer.Actors.Coordinator

/-!
# What becomes of an envelope

The handlers on the message path leave the coordinator as it is. What they do
to the copy of an envelope they take up is one of four things, its fate; the
relations below say which fate it meets where. Every claim about copies is a
case analysis over them.
-/

namespace MpcServer

open Rust Rust.Method

variable {C : Crates}

/-- What a handler does with the copy it took up. -/
inductive Fate
  | gone
  | panicked
  | retried (m : RetryMessage)
  | delivered (m : Arrival)

/-- The handler panics. -/
def Fate.panics : Fate → Bool
  | .panicked => true
  | _ => false

/-- The fate is that of a copy of reception `k`. -/
def Fate.About (k : Nat) : Fate → Prop
  | .gone | .panicked => True
  | .retried m => m.message.origin = k
  | .delivered m => m.origin = k

namespace Coordinator

/-! ## Delivery and retry -/

/-- The delivery of a message to the runner of its room, if it has one and the
payload reads as a message of the runner's kind. -/
def delivery {μ : Type} (runners : String → Option Addr) (codec : Serde (Msg μ) String)
    (deliver : Addr → IncomingMessage (Msg μ) → Effect C) (message : Arrival) :
    Option (Effect C) :=
  (runners message.room).bind fun a => (codec.read message.payload).map fun msg =>
    deliver a { room := message.room, wireMessage := message, message := msg }

/-- Where a message goes: to the runners of its room, in the order in which they are asked. -/
def deliveries (c : Coordinator C) (message : Arrival) : List (Effect C) :=
  (delivery c.offlineStateRunners C.msgO .deliverO message).toList ++
    (delivery c.signers C.msgS .deliverS message).toList ++
      (delivery c.keygenRunners C.msgKG .deliverKG message).toList

/-- What `retry` does. -/
def retryEffects (m : RetryMessage) : List (Effect C) :=
  if 33 < m.attempts then [.drop m] else [.schedule (retryDelay m.attempts) m]

/-- What the outside sees of a fate. -/
def effects (c : Coordinator C) : Fate → List (Effect C)
  | .gone | .panicked => []
  | .retried m => retryEffects m
  | .delivered m => c.deliveries m

theorem retry_run {ε : Type} (m : RetryMessage) (c : Coordinator C) :
    (retry m : Call C ε Unit).run c = (.ok (), c, retryEffects m) := by
  unfold retry retryEffects
  split <;> rfl

theorem attempt_handTo_run {μ : Type} (runners : Coordinator C → String → Option Addr)
    (notFound : String) (codec : Serde (Msg μ) String)
    (deliver : Addr → IncomingMessage (Msg μ) → Effect C) (message : Arrival)
    (c : Coordinator C) :
    (∃ e, delivery (runners c) codec deliver message = some e ∧
      (attempt (δ := String) (handTo runners notFound codec deliver message)).run c =
        (.ok (.ok ()), c, [e])) ∨
    ∃ t, delivery (runners c) codec deliver message = none ∧
      (attempt (δ := String) (handTo runners notFound codec deliver message)).run c =
        (.ok (.error t), c, []) := by
  unfold handTo delivery
  simp only [run_attempt, run_bind, run_self]
  cases runners c message.room with
  | none => exact .inr ⟨_, rfl, rfl⟩
  | some a =>
      simp only [context_some, run_question_ok]
      cases codec.read message.payload with
      | none => exact .inr ⟨_, rfl, rfl⟩
      | some msg => exact .inl ⟨_, rfl, rfl⟩

/-- How a checked message is routed: to every runner that takes it, or round
again with one attempt more. -/
inductive Routed (c : Coordinator C) (message : Arrival) (initTs : Nat) (attempts : UInt16) :
    Fate → Prop
  | delivered : c.deliveries message ≠ [] → Routed c message initTs attempts (.delivered message)
  | retried {next} : c.deliveries message = [] →
      addU16 C.overflowChecks attempts 1 = .ok next →
      Routed c message initTs attempts (.retried
        { initialTimestamp := initTs, attempts := next, checkPassed := true, message })
  | panicked {p} : c.deliveries message = [] →
      addU16 C.overflowChecks attempts 1 = .error p → Routed c message initTs attempts .panicked

theorem handleIncomingUnsafe_run (message : Arrival) (initTs : Nat) (attempts : UInt16)
    (c : Coordinator C) :
    ∃ r f, (handleIncomingUnsafe message initTs attempts).run c = (r, c, c.effects f) ∧
      isPanic r = f.panics ∧ Routed c message initTs attempts f := by
  unfold handleIncomingUnsafe handleIncomingOffline handleIncomingSign handleIncomingKeygen
  have hdelivered (h : c.deliveries message ≠ []) :
      Routed c message initTs attempts (.delivered message) := .delivered h
  rcases attempt_handTo_run offlineStateRunners "Not found mpc player." C.msgO .deliverO message c
    with ⟨e₁, hd₁, h₁⟩ | ⟨t₁, hd₁, h₁⟩ <;>
  rcases attempt_handTo_run signers "Not found signer." C.msgS .deliverS message c
    with ⟨e₂, hd₂, h₂⟩ | ⟨t₂, hd₂, h₂⟩ <;>
  rcases attempt_handTo_run keygenRunners "Can't found mpc player." C.msgKG .deliverKG message c
    with ⟨e₃, hd₃, h₃⟩ | ⟨t₃, hd₃, h₃⟩ <;>
  rw [run_bind_ok h₁, run_bind_ok h₂, run_bind_ok h₃]
  case inr.inr.inr =>
    -- no runner took it
    have hnil : c.deliveries message = [] := by simp [deliveries, hd₁, hd₂, hd₃]
    simp only [run_bind]
    cases hadd : addU16 C.overflowChecks attempts 1 with
    | ok next =>
        simp only [run_orPanic_ok, retry_run]
        exact ⟨_, .retried _, rfl, rfl, .retried hnil hadd⟩
    | error p =>
        simp only [run_orPanic_error]
        exact ⟨_, .panicked, rfl, rfl, .panicked hnil hadd⟩
  all_goals
    exact ⟨.ok (), .delivered message, by simp [effects, deliveries, hd₁, hd₂, hd₃], rfl,
      hdelivered (by simp [deliveries, hd₁, hd₂, hd₃])⟩

theorem Routed.about {c : Coordinator C} {message : Arrival} {initTs : Nat} {attempts : UInt16}
    {f : Fate} (h : Routed c message initTs attempts f) : f.About message.origin := by
  cases h <;> trivial

/-- A message has one fate. -/
theorem Routed.unique {c : Coordinator C} {message : Arrival} {initTs : Nat} {attempts : UInt16}
    {f f' : Fate} (h : Routed c message initTs attempts f)
    (h' : Routed c message initTs attempts f') : f = f' := by
  cases h with
  | delivered hsome =>
      cases h' with
      | delivered _ => rfl
      | retried hnone _ => exact absurd hnone hsome
      | panicked hnone _ => exact absurd hnone hsome
  | retried hnone hadd =>
      cases h' with
      | delivered hsome => exact absurd hnone hsome
      | retried _ hadd' =>
          cases hadd.symm.trans hadd'
          rfl
      | panicked _ hadd' => cases hadd.symm.trans hadd'
  | panicked hnone hadd =>
      cases h' with
      | delivered hsome => exact absurd hnone hsome
      | retried _ hadd' => cases hadd.symm.trans hadd'
      | panicked _ _ => rfl

/-! ## Envelopes from the broker -/

/-- The envelope is from a member of its room's group, for this server, and
`msg'` is what it decrypts to. -/
def Passes (c : Coordinator C) (amb : Ambient) (msg msg' : Arrival) : Prop :=
  validSenderAndReceiver c amb msg = .ok () ∧ maybeDecrypt c.sk msg = .ok msg'

/-- What can become of a message from the stream. -/
inductive Incoming (c : Coordinator C) (ctx : Ctx) (msg : Arrival) : Fate → Prop
  | sliced {p} : byteSlice c.pkStr 2 10 = .error p → Incoming c ctx msg .panicked
  | foreign {piece} : byteSlice c.pkStr 2 10 = .ok piece → containsStr msg.room piece = false →
      Incoming c ctx msg .gone
  | notForMe : validSenderAndReceiver c ctx.toAmbient msg = .error (.err .notForMe) →
      Incoming c ctx msg .gone
  | unwrapped {p} : validSenderAndReceiver c ctx.toAmbient msg = .error (.panic p) →
      Incoming c ctx msg .panicked
  | undecryptable {e} : validSenderAndReceiver c ctx.toAmbient msg = .ok () →
      maybeDecrypt c.sk msg = .error e → Incoming c ctx msg .gone
  | unknown {e} : validSenderAndReceiver c ctx.toAmbient msg = .error (.err e) → e ≠ .notForMe →
      Incoming c ctx msg (.retried
        { initialTimestamp := ctx.now, attempts := 1, checkPassed := false, message := msg })
  | passed {msg' f} : Passes c ctx.toAmbient msg msg' → Routed c msg' ctx.now 0 f →
      Incoming c ctx msg f

theorem Incoming.about {c : Coordinator C} {ctx : Ctx} {msg : Arrival} {f : Fate}
    (h : Incoming c ctx msg f) : f.About msg.origin := by
  cases h with
  | passed hp hr => exact maybeDecrypt_origin hp.2 ▸ hr.about
  | _ => trivial

theorem attempt_lift_run {α : Type} (x : Except (Stop CoordinatorError) α) (c : Coordinator C) :
    (attempt (δ := String) (lift x : Call C CoordinatorError α)).run c =
      match x with
      | .ok a => (.ok (.ok a), c, [])
      | .error (.err e) => (.ok (.error e), c, [])
      | .error (.panic p) => (.error (.panic p), c, []) := by
  rw [run_attempt, run_lift]
  rcases x with (e | p) | a <;> rfl

theorem handleIncoming_run (msg : Arrival) (ctx : Ctx) (c : Coordinator C) :
    ∃ r f, (handleIncoming msg ctx).run c = (r, c, c.effects f) ∧ isPanic r = f.panics ∧
      Incoming c ctx msg f := by
  unfold handleIncoming
  simp only [run_bind, run_self]
  cases hpiece : byteSlice c.pkStr 2 10 with
  | error p =>
      simp only [run_orPanic_error]
      exact ⟨_, .panicked, rfl, rfl, .sliced hpiece⟩
  | ok piece =>
      simp only [run_orPanic_ok]
      cases hroom : containsStr msg.room piece with
      | false =>
          simp only [Bool.not_false, if_true, run_pure]
          exact ⟨_, .gone, rfl, rfl, .foreign hpiece hroom⟩
      | true =>
          simp only [Bool.not_true, Bool.false_eq_true, if_false, run_bind, attempt_lift_run]
          cases hvalid : validSenderAndReceiver c ctx.toAmbient msg with
          | ok u =>
              cases hdec : maybeDecrypt c.sk msg with
              | ok msg' =>
                  obtain ⟨r, f, hrun, hpanic, hf⟩ := handleIncomingUnsafe_run msg' ctx.now 0 c
                  simp only [hrun, List.nil_append]
                  exact ⟨_, f, rfl, hpanic, .passed ⟨hvalid, hdec⟩ hf⟩
              | error e =>
                  exact ⟨_, .gone, rfl, rfl, .undecryptable hvalid hdec⟩
          | error stop =>
              cases stop with
              | panic p => exact ⟨_, .panicked, rfl, rfl, .unwrapped hvalid⟩
              | err e =>
                  by_cases he : e = .notForMe
                  · subst he
                    exact ⟨_, .gone, rfl, rfl, .notForMe hvalid⟩
                  · -- any other failure of the check is left to a later attempt
                    refine ⟨.ok (), .retried _, ?_, rfl, .unknown hvalid he⟩
                    cases e <;> first | exact absurd rfl he | simp [retry_run, effects]

/-! ## Retries -/

/-- What can become of a message from the clock. -/
inductive Retried (c : Coordinator C) (ctx : Ctx) (m : RetryMessage) : Fate → Prop
  | checked {f} : m.checkPassed = true →
      Routed c m.message m.initialTimestamp m.attempts f → Retried c ctx m f
  | passed {msg' f} : m.checkPassed = false → Passes c ctx.toAmbient m.message msg' →
      Routed c msg' m.initialTimestamp m.attempts f → Retried c ctx m f
  | unwrapped {p} : m.checkPassed = false →
      validSenderAndReceiver c ctx.toAmbient m.message = .error (.panic p) →
      Retried c ctx m .panicked
  | failed {next} : m.checkPassed = false → (∀ msg', ¬ Passes c ctx.toAmbient m.message msg') →
      addU16 C.overflowChecks m.attempts 1 = .ok next →
      Retried c ctx m (.retried { m with attempts := next, checkPassed := false })
  | overflowed {p} : m.checkPassed = false →
      (∀ msg', ¬ Passes c ctx.toAmbient m.message msg') →
      addU16 C.overflowChecks m.attempts 1 = .error p → Retried c ctx m .panicked

theorem Retried.about {c : Coordinator C} {ctx : Ctx} {m : RetryMessage} {f : Fate}
    (h : Retried c ctx m f) : f.About m.message.origin := by
  cases h with
  | checked _ hr => exact hr.about
  | passed _ hp hr => exact maybeDecrypt_origin hp.2 ▸ hr.about
  | _ => trivial

/-- The check of a retried message, as its caller sees it. -/
theorem attempt_precheckMessage_run (msg : Arrival) (ctx : Ctx) (c : Coordinator C) :
    (∃ p, (attempt (δ := String) (precheckMessage msg ctx)).run c = (.error (.panic p), c, []) ∧
      validSenderAndReceiver c ctx.toAmbient msg = .error (.panic p)) ∨
    (∃ msg', (attempt (δ := String) (precheckMessage msg ctx)).run c = (.ok (.ok msg'), c, []) ∧
      Passes c ctx.toAmbient msg msg') ∨
    ∃ e, (attempt (δ := String) (precheckMessage msg ctx)).run c = (.ok (.error e), c, []) ∧
      ∀ msg', ¬ Passes c ctx.toAmbient msg msg' := by
  unfold precheckMessage Passes
  simp only [run_attempt, run_bind, run_self]
  cases hvalid : validSenderAndReceiver c ctx.toAmbient msg with
  | ok u =>
      cases hdec : maybeDecrypt c.sk msg with
      | ok msg' => exact .inr (.inl ⟨msg', rfl, rfl, rfl⟩)
      | error e => exact .inr (.inr ⟨_, rfl, by simp⟩)
  | error stop =>
      cases stop with
      | panic p => exact .inl ⟨p, rfl, rfl⟩
      | err e => exact .inr (.inr ⟨_, rfl, by simp⟩)

theorem handleRetry_run {m : RetryMessage} (hm : m.checkPassed = false) (ctx : Ctx)
    (c : Coordinator C) :
    ∃ r f, (handleRetry m ctx).run c = (r, c, c.effects f) ∧ isPanic r = f.panics ∧
      Retried c ctx m f := by
  unfold handleRetry
  rcases attempt_precheckMessage_run m.message ctx c with ⟨p, h, hv⟩ | ⟨msg', h, hp⟩ | ⟨e, h, hn⟩
  · rw [run_bind_error h]
    exact ⟨_, .panicked, rfl, rfl, .unwrapped hm hv⟩
  · rw [run_bind_ok h]
    obtain ⟨r, f, hrun, hpanic, hf⟩ :=
      handleIncomingUnsafe_run msg' m.initialTimestamp m.attempts c
    simp only [hrun, List.nil_append]
    exact ⟨_, f, rfl, hpanic, .passed hm hp hf⟩
  · rw [run_bind_ok h]
    simp only [run_bind, List.nil_append]
    cases hadd : addU16 C.overflowChecks m.attempts 1 with
    | ok next =>
        simp only [run_orPanic_ok, retry_run, List.nil_append]
        exact ⟨_, .retried _, rfl, rfl, .failed hm hn hadd⟩
    | error p =>
        simp only [run_orPanic_error]
        exact ⟨_, .panicked, rfl, rfl, .overflowed hm hn hadd⟩

theorem handleRetryMessage_run (m : RetryMessage) (ctx : Ctx) (c : Coordinator C) :
    ∃ r f, (handleCoordinatorMessage (.retry m) ctx).run c = (r, c, c.effects f) ∧
      isPanic r = f.panics ∧ Retried c ctx m f := by
  unfold handleCoordinatorMessage
  cases hm : m.checkPassed with
  | true =>
      obtain ⟨r, f, hrun, hpanic, hf⟩ :=
        handleIncomingUnsafe_run m.message m.initialTimestamp m.attempts c
      exact ⟨r, f, by simpa [hm] using hrun, hpanic, .checked hm hf⟩
  | false =>
      obtain ⟨r, f, hrun, hpanic, hf⟩ := handleRetry_run hm ctx c
      exact ⟨r, f, by simpa [hm] using hrun, hpanic, hf⟩

/-! ## Errors of the runners -/

/-- A message that came too early starts over; any other error is only logged. -/
def fateOfError (error : StageError) (wireMessage : Arrival) (ctx : Ctx) : Fate :=
  match error with
  | .receivedOutOfOrderMessage _ _ =>
      .retried { initialTimestamp := ctx.now, attempts := 1, checkPassed := true,
                 message := wireMessage }
  | .other _ => .gone

theorem handleProtocolError_run (error : StageError) (wireMessage : Arrival) (ctx : Ctx)
    (c : Coordinator C) :
    (handleProtocolError error wireMessage ctx).run c =
      (.ok (), c, c.effects (fateOfError error wireMessage ctx)) := by
  unfold handleProtocolError fateOfError
  cases error with
  | receivedOutOfOrderMessage _ _ => exact retry_run _ c
  | other _ => rfl

end Coordinator

end MpcServer

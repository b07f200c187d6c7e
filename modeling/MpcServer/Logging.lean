import MpcServer.Sample

/-!
# The log lines of the message path

A log line that is switched on computes its texts where it stands, and some of
the texts are unwrapped: that of an envelope, the description of a protocol
message. Here are the handlers an envelope passes once more, every line switched
on. Where the texts can be written, the lines change nothing.
-/

namespace MpcServer

open Rust Rust.Method

variable {C : Crates}

/-- The rounds a log line can name. -/
inductive MessageRound
  | kg1 | kg2 | kg3 | kg4
  | s1 | s2 | s3 | s4 | s5 | s6 | s7
  | un
  deriving DecidableEq, Repr

namespace MessageRound

/-- The round whose body has this name for its variant or its first field. -/
def ofName : String → MessageRound
  | "Round1" => kg1
  | "Round2" => kg2
  | "Round3" => kg3
  | "Round4" => kg4
  | "M1" => s1
  | "M2" => s2
  | "M3" => s3
  | "M4" => s4
  | "M5" => s5
  | "M6" => s6
  | "scalar" => s7
  | "curve" => s7
  | _ => un

end MessageRound

/-- What a log line says about a message. -/
structure MsgDescriptor where
  sender : UInt16
  receiver : Option UInt16
  round : MessageRound
  hash : String
  deriving DecidableEq, Repr

variable (C) in
/-- `regex`, and what else only the log lines call. -/
structure LogCrates where
  Regex : Type
  /-- `Regex::new` -/
  regexNew : String → Option Regex
  /-- `captures`, and of a match `get(1)` -/
  captures : Regex → String → Option (Option String)
  /-- the bytes of a hash -/
  digestBytes : C.Digest → ByteArray
  /-- `serde_json::to_string` -/
  msgDescriptor : MsgDescriptor → Option String

/-- The name at the head of an object. -/
def roundPattern : String := "^\\\x7b\"(\\w+)\".*"

/-- The pattern is a regular expression, its group is part of every match, and a
descriptor can be written. -/
structure LogCrates.Laws (L : LogCrates C) : Prop where
  regexNew : (L.regexNew roundPattern).isSome = true
  captures : ∀ re s round, L.regexNew roundPattern = some re → L.captures re s = some round →
    round.isSome = true
  msgDescriptor : ∀ desc, (L.msgDescriptor desc).isSome = true

section
variable (L : LogCrates C)

/-- `describe_message` -/
def describeMessage (msg : String) : Except Panic String :=
  let hash := C.sha256 msg.toUTF8
  match C.genericMessage.read msg with
  | some msg => do
      let body := String.ofList ((C.rawValueText msg.body).toList.filter (· ≠ '\\'))
      let re ← unwrap (L.regexNew roundPattern)
      match L.captures re body with
      | some round => do
          let round ← unwrap round
          unwrap (L.msgDescriptor
            { sender := msg.sender, receiver := msg.receiver, round := .ofName round
              hash := C.hexEncode (L.digestBytes hash) })
      | none => .ok ""
  | none => .ok ""

/-- No message is too strange to be described. -/
theorem describeMessage_ok {L : LogCrates C} (laws : L.Laws) (msg : String) :
    ∃ text, describeMessage L msg = .ok text := by
  obtain ⟨re, hre⟩ := Option.isSome_iff_exists.mp laws.regexNew
  unfold describeMessage
  cases C.genericMessage.read msg with
  | none => exact ⟨"", rfl⟩
  | some m =>
      simp only [hre, unwrap, bind, Except.bind]
      cases hcap : L.captures re _ with
      | none => exact ⟨"", rfl⟩
      | some round =>
          obtain ⟨name, rfl⟩ := Option.isSome_iff_exists.mp (laws.captures re _ round hre hcap)
          obtain ⟨text, htext⟩ := Option.isSome_iff_exists.mp (laws.msgDescriptor
            { sender := m.sender, receiver := m.receiver, round := .ofName name
              hash := C.hexEncode (L.digestBytes (C.sha256 msg.toUTF8)) })
          refine ⟨text, ?_⟩
          dsimp only
          rw [htext]

namespace Coordinator

/-! ## The handlers, with their lines -/

/-- `retry` with its log line. -/
def retryLogged {ε : Type} (envelope : RetryMessage) : Call C ε Unit :=
  if 33 < envelope.attempts then do
    log (describeMessage L envelope.message.payload)
    emit (.drop envelope)
  else emit (.schedule (retryDelay envelope.attempts) envelope)

/-- `handle_incoming_unsafe` with its log line. -/
def handleIncomingUnsafeLogged (message : Arrival) (initTs : Nat) (attempts : UInt16) :
    Call C String Unit := do
  let h1 ← attempt (handleIncomingOffline message)
  let h2 ← attempt (handleIncomingSign message)
  let h3 ← attempt (handleIncomingKeygen message)
  let _ ← if attempts = 0 then log (describeMessage L message.payload) else pure ()
  match h1, h2, h3 with
  | .error _, .error _, .error _ => do
      let next ← orPanic (addU16 C.overflowChecks attempts 1)
      retryLogged L { initialTimestamp := initTs, attempts := next, checkPassed := true, message }
  | _, _, _ => pure ()

/-- `handle_incoming` with its log line. -/
def handleIncomingLogged (msg : Arrival) (ctx : Ctx) : Call C String Unit := do
  let c ← self
  let piece ← orPanic (byteSlice c.pkStr 2 10)
  if !containsStr msg.room piece then log (unwrap (C.wireMessage.write msg.toWireMessage))
  else
    match ← attempt (lift (validSenderAndReceiver c ctx.toAmbient msg)) with
    | .ok () =>
        match maybeDecrypt c.sk msg with
        | .ok transformed => handleIncomingUnsafeLogged L transformed ctx.now 0
        | .error _ => log (unwrap (C.wireMessage.write msg.toWireMessage))
    | .error .notForMe => log (unwrap (C.wireMessage.write msg.toWireMessage))
    | .error _ =>
        retryLogged L { initialTimestamp := ctx.now, attempts := 1, checkPassed := false,
                        message := msg }

/-- `handle_retry`, which logs in what it calls. -/
def handleRetryLogged (msg : RetryMessage) (ctx : Ctx) : Call C String Unit := do
  match ← attempt (ε := String) (precheckMessage msg.message ctx) with
  | .ok adaptedEnvelope =>
      handleIncomingUnsafeLogged L adaptedEnvelope msg.initialTimestamp msg.attempts
  | .error _ => do
      let next ← orPanic (addU16 C.overflowChecks msg.attempts 1)
      retryLogged L { initialTimestamp := msg.initialTimestamp, attempts := next,
                      checkPassed := false, message := msg.message }

/-- An envelope from the broker, or a retried one. -/
def handleEnvelopeLogged (ctx : Ctx) : Arrival ⊕ RetryMessage → Call C String Unit
  | .inl msg => handleIncomingLogged L msg ctx
  | .inr msg =>
      if msg.checkPassed then
        handleIncomingUnsafeLogged L msg.message msg.initialTimestamp msg.attempts
      else handleRetryLogged L msg ctx

end Coordinator

namespace MpcPlayer

/-- `Handler<IncomingMessage<..>>`. -/
def handleLogged {I SM β ε ο : Type} [StateMachine SM β ε ο] (checks : Bool)
    (codec : Serde (Msg β) String) (now : Nat) (msg : IncomingMessage (Msg β)) :
    Call I SM β ε ο Unit := do
  let p ← self
  if msg.message.sender = p.index then pure ()
  else if validReceiver p.index msg.message.receiver then do
    let msgCount ← orPanic (addU16 checks p.msgCount 1)
    modify ({ · with msgCount })
    handleIncoming msg
    let r ← attempt (ε := ε) (maybeProceed codec now)
    let _ ← match r with
      | .ok () => pure ()
      | .error e => sendError e msg
    log (unwrap (codec.write msg.message) >>= describeMessage L)
  else pure ()

end MpcPlayer

end

/-! ## The lines change nothing -/

section
variable {L : LogCrates C}

theorem log_unwrap {σ ω ε : Type} {x : Option String} (h : x.isSome = true) :
    (log (unwrap x) : Method σ ω ε Unit) = pure () := by
  obtain ⟨text, rfl⟩ := Option.isSome_iff_exists.mp h
  exact log_eq_pure rfl

theorem log_describeMessage {σ ω ε : Type} (laws : L.Laws) (msg : String) :
    (log (describeMessage L msg) : Method σ ω ε Unit) = pure () := by
  obtain ⟨text, htext⟩ := describeMessage_ok laws msg
  exact log_eq_pure htext

namespace Coordinator

theorem retryLogged_eq {ε : Type} (laws : L.Laws) (envelope : RetryMessage) :
    (retryLogged L envelope : Call C ε Unit) = retry envelope := by
  unfold retryLogged retry
  rw [log_describeMessage laws, pure_bind]

theorem handleIncomingUnsafeLogged_eq (laws : L.Laws) (message : Arrival) (initTs : Nat)
    (attempts : UInt16) :
    handleIncomingUnsafeLogged L message initTs attempts =
      handleIncomingUnsafe message initTs attempts := by
  unfold handleIncomingUnsafeLogged
  simp only [log_describeMessage laws, ite_self, pure_bind, retryLogged_eq laws]
  rfl

theorem handleIncomingLogged_eq (laws : L.Laws) {msg : Arrival}
    (hwrite : (C.wireMessage.write msg.toWireMessage).isSome = true) (ctx : Ctx) :
    handleIncomingLogged L msg ctx = handleIncoming msg ctx := by
  unfold handleIncomingLogged
  simp only [log_unwrap hwrite, handleIncomingUnsafeLogged_eq laws, retryLogged_eq laws]
  rfl

theorem handleRetryLogged_eq (laws : L.Laws) (msg : RetryMessage) (ctx : Ctx) :
    handleRetryLogged L msg ctx = handleRetry msg ctx := by
  unfold handleRetryLogged
  simp only [handleIncomingUnsafeLogged_eq laws, retryLogged_eq laws]
  rfl

/-- The log lines of the coordinator leave its handlers what they are without them. -/
theorem handleEnvelopeLogged_eq (laws : L.Laws) (ctx : Ctx) {x : Arrival ⊕ RetryMessage}
    (hwrite : ∀ msg, x = .inl msg → (C.wireMessage.write msg.toWireMessage).isSome = true) :
    handleEnvelopeLogged L ctx x =
      handleCoordinatorMessage (x.elim .incoming .retry) ctx := by
  cases x with
  | inl msg => exact handleIncomingLogged_eq laws (hwrite msg rfl) ctx
  | inr msg =>
      unfold handleEnvelopeLogged
      simp only [handleIncomingUnsafeLogged_eq laws, handleRetryLogged_eq laws]
      rfl

end Coordinator

namespace MpcPlayer

/-- So do those of a player. -/
theorem handleLogged_eq {I SM β ε ο : Type} [StateMachine SM β ε ο] (laws : L.Laws) (checks : Bool)
    {codec : Serde (Msg β) String} (now : Nat) {msg : IncomingMessage (Msg β)}
    (hwrite : (codec.write msg.message).isSome = true) :
    (handleLogged L checks codec now msg : Call I SM β ε ο Unit) =
      handle checks codec now msg := by
  have hline : ∀ {σ ω : Type},
      (log (unwrap (codec.write msg.message) >>= describeMessage L) : Method σ ω ε Unit) =
        pure () := by
    intro σ ω
    obtain ⟨text, htext⟩ := Option.isSome_iff_exists.mp hwrite
    rw [htext]
    exact log_describeMessage laws text
  unfold handleLogged
  simp only [hline, bind_pure_unit]
  rfl

end MpcPlayer

end

namespace Sample

/-- The name in an object of one field. -/
def headName (s : String) : Option String :=
  match s.toList with
  | '\x7b' :: '"' :: rest =>
      let name := rest.takeWhile Char.isAlphanum
      if name = [] ∨ (rest.drop name.length).head? ≠ some '"' then none
      else some (String.ofList name)
  | _ => none

/-- The log crates of the scenario. -/
def logCrates (sc : Scenario) : LogCrates (crates sc) where
  Regex := Unit
  regexNew _ := some ()
  captures _ s := (headName s).map some
  digestBytes digest := ⟨(show List UInt8 from digest).toArray⟩
  msgDescriptor desc := some (desc.hash ++ toString desc.sender.toNat)

theorem logLaws (sc : Scenario) : (logCrates sc).Laws where
  regexNew := rfl
  captures re s round _ h := by
    obtain ⟨name, -, rfl⟩ := Option.map_eq_some_iff.mp h
    rfl
  msgDescriptor _ := rfl

end Sample

end MpcServer

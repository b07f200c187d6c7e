import MpcServer.Actors.Player
import MpcServer.Actors.Signer
import MpcServer.Transport

/-!
# The coordinator

The one actor every message passes. It keeps a runner for every room in
three maps, checks and decrypts what comes in from the broker, routes it to
the runners, retries what finds none, and turns the runners' outputs into
stored shares and statuses.
-/

namespace MpcServer

open Rust Rust.Method

/-- What is wrong with an incoming message. -/
inductive CoordinatorError
  | unknownGroup
  | invalidRoom
  | wrongPublicKey
  | wrongPublicKeys
  | wrongNumberOfParticipants
  | notForMe
  | invalidPayload
  deriving DecidableEq, Repr

/-- The texts of `#[error(..)]`. -/
def CoordinatorError.text : CoordinatorError → String
  | .unknownGroup =>
      "The group is unknown to this server. This may be caused by delay of local request."
  | .invalidRoom => "The message doesn't contain a valid room id."
  | .wrongPublicKey => "Public key doesn't belong to the group."
  | .wrongPublicKeys => "Some of the public keys don't belong to the group."
  | .wrongNumberOfParticipants => "The required number of participants is not met."
  | .notForMe => "The message is not for me."
  | .invalidPayload => "The message doesn't contain a valid payload."

/-- The address of an actor: its place in the list of the actors of its type. -/
abbrev Addr := Nat

variable (C : Crates)

/-- A player of the keygen. -/
abbrev PlayerKG := MpcPlayer KeygenRequest C.Keygen

/-- A player of the offline stage. -/
abbrev PlayerO := MpcPlayer EnrichedSignRequest C.OfflineStage

/-- What a keygen player is handed. -/
abbrev IncomingKG := IncomingMessage (Msg C.KeygenProtocolMessage)

/-- What an offline player is handed. -/
abbrev IncomingO := IncomingMessage (Msg C.OfflineProtocolMessage)

/-- The coordinator: its keys, its tree, and one map of runners for each protocol. -/
structure Coordinator where
  pkStr : String
  sk : C.SecretKey
  /-- the one tree behind the group store, the share store and the encrypter -/
  db : Tree C
  keygenRunners : String → Option Addr
  offlineStateRunners : String → Option Addr
  signers : String → Option Addr

/-- What a handler is given from outside: `Ambient`, and the address an
actor it starts will get. -/
structure Ctx extends Ambient where
  freshKG : Addr
  freshO : Addr
  freshS : Addr

/-- What a handler does to the outside. `savedGroup` is proof-only: it marks
a call of `save_group` and whether the database carried it out. -/
inductive Effect
  | status (r : CheckResultResponse)
  | schedule (delay : Nat) (m : RetryMessage)
  | drop (m : RetryMessage)
  | send (m : CoreMessage)
  | deliverKG (a : Addr) (m : IncomingKG C)
  | deliverO (a : Addr) (m : IncomingO C)
  | deliverS (a : Addr) (m : IncomingS C)
  | startKG (a : Addr) (p : PlayerKG C)
  | startO (a : Addr) (p : PlayerO C)
  | startS (a : Addr) (s : Signer C)
  | savedGroup (g : PublicKeyGroup) (written : Bool)

variable {C}

namespace Coordinator

/-- A handler of the coordinator's. -/
abbrev Call (C : Crates) (ε α : Type) := Method (Coordinator C) (Effect C) ε α

/-! ## Requests -/

/-- `let _ = self.group_store.save_group(group)`. -/
def storeGroup {ε : Type} (group : PublicKeyGroup) (ctx : Ctx) : Call C ε Unit := do
  let c ← self
  match saveGroup c.db ctx.toAmbient group with
  | .ok db => do
      modify ({ · with db })
      emit (.savedGroup group true)
  | .error _ => emit (.savedGroup group false)

/-- Starts a player for the request, in the room of its id and its group. -/
def handleKeygenRequest (req : KeygenRequest) (ctx : Ctx) : Call C String Unit := do
  emit (.status { requestId := req.requestId, result := "", requestType := .keygen,
                  requestStatus := .processing })
  let c ← self
  let group ← orPanic
    (PublicKeyGroup.new req.participantPublicKeys req.threshold.toUInt16 c.pkStr)
  let room := makeRoomId req.requestId group.groupId
  let i ← orPanic group.getI
  let state ← question (context (C.keygenNew i group.getT group.getN) "Create state machine")
  emit (.startKG ctx.freshKG (MpcPlayer.new req room i state))
  storeGroup group ctx
  modify fun c => { c with
    keygenRunners := Function.update c.keygenRunners room (some ctx.freshKG) }

/-- The indices of the participants in the keygen group, in their order: the
number that were found is looked at first, the ones that were not after it. -/
def participantIndices (group : PublicKeyGroup) (required : UInt16) (keys : List String) :
    Except CoordinatorError (List UInt16) :=
  let indices := (keys.map group.getIndex).filter Option.isSome
  let errors := (keys.map group.getIndex).filter fun o => !o.isSome
  if indices.length ≠ required.toNat then .error .wrongNumberOfParticipants
  else if ¬ errors.isEmpty then .error .wrongPublicKeys
  else .ok ((indices.filterMap id).map UInt16.ofNat)

/-- Starts an offline player on the stored share, in the room of the id and the subgroup. -/
def handleSignRequest (req : SignRequest) (ctx : Ctx) : Call C String Unit := do
  let c ← self
  let localShare ← question
    (withContext (retrieveShare c.db c.sk ctx.toAmbient req.publicKey) "Retrieve local share.")
  let t := C.threshold localShare.share
  let group ← orPanic (PublicKeyGroup.new localShare.publicKeys t c.pkStr)
  let subgroup ← orPanic (PublicKeyGroup.new req.participantPublicKeys t c.pkStr)
  storeGroup subgroup ctx
  let required ← orPanic (addU16 C.overflowChecks t 1)
  let sL ← question (match participantIndices group required req.participantPublicKeys with
    | .ok sL => .ok sL
    | .error _ => .error "Find index of participants")
  emit (.status { requestId := req.requestId, result := "", requestType := .sign,
                  requestStatus := .processing })
  let _indexInGroup ← orPanic group.getI
  let indexInSL ← orPanic subgroup.getI
  let room := req.requestId ++ "@" ++ subgroup.groupId
  let enriched : EnrichedSignRequest := { inner := req, room, i := indexInSL, sL }
  let state ← question
    (context (C.offlineStageNew indexInSL sL localShare.share) "Create state machine")
  emit (.startO ctx.freshO (MpcPlayer.new enriched room indexInSL state))
  modify fun c => { c with
    offlineStateRunners := Function.update c.offlineStateRunners room (some ctx.freshO) }

/-! ## Incoming messages -/

/-- The sender is who its index says, and the message is for everybody or for this server. -/
def validSenderAndReceiver (c : Coordinator C) (amb : Ambient) (msg : Arrival) :
    Except (Stop CoordinatorError) Unit :=
  match extractGroupId msg.room with
  | .error _ => .error (.err .invalidRoom)
  | .ok groupId =>
    match retrieveGroup c.db amb groupId with
    | .error _ => .error (.err .unknownGroup)
    | .ok group =>
      match group.getIndex msg.senderPublicKey with
      | none => .error (.err .wrongPublicKey)
      | some _ =>
        match C.genericMessage.read msg.payload with
        | none => .error (.err .invalidPayload)
        | some m =>
          match m.receiver with
          | none => .ok ()
          | some receiver =>
            match group.getI with
            | .error p => .error (.panic p)
            | .ok i => if receiver ≠ i then .error (.err .notForMe) else .ok ()

/-- Hand a message to the runner of its room: the three `handle_incoming_*`
differ in the map, the type of the message and the actor. -/
def handTo {μ : Type} (runners : Coordinator C → String → Option Addr) (notFound : String)
    (codec : Serde (Msg μ) String)
    (deliver : Addr → IncomingMessage (Msg μ) → Effect C) (message : Arrival) :
    Call C String Unit := do
  let c ← self
  let addr ← question (context (runners c message.room) notFound)
  let msg ← question (context (codec.read message.payload) "deserialize message")
  emit (deliver addr { room := message.room, wireMessage := message, message := msg })

/-- To the keygen player of the room. -/
def handleIncomingKeygen (message : Arrival) : Call C String Unit :=
  handTo keygenRunners "Can't found mpc player." C.msgKG .deliverKG message

/-- To the offline player of the room. -/
def handleIncomingOffline (message : Arrival) : Call C String Unit :=
  handTo offlineStateRunners "Not found mpc player." C.msgO .deliverO message

/-- To the signer of the room. -/
def handleIncomingSign (message : Arrival) : Call C String Unit :=
  handTo signers "Not found signer." C.msgS .deliverS message

/-- Seconds until the next attempt: 2, 4, 8, .., 512, then ten minutes each. -/
def retryDelay (attempts : UInt16) : Nat :=
  if attempts ≤ 9 then 2 ^ attempts.toNat else 600

/-- Puts the message on the clock, or drops it after the last attempt. -/
def retry {ε : Type} (envelope : RetryMessage) : Call C ε Unit :=
  if 33 < envelope.attempts then emit (.drop envelope)
  else emit (.schedule (retryDelay envelope.attempts) envelope)

/-- Hands the message to every runner of its room; where there is none it is retried. -/
def handleIncomingUnsafe (message : Arrival) (initTs : Nat) (attempts : UInt16) :
    Call C String Unit := do
  let h1 ← attempt (handleIncomingOffline message)
  let h2 ← attempt (handleIncomingSign message)
  let h3 ← attempt (handleIncomingKeygen message)
  match h1, h2, h3 with
  | .error _, .error _, .error _ => do
      let next ← orPanic (addU16 C.overflowChecks attempts 1)
      retry { initialTimestamp := initTs, attempts := next, checkPassed := true, message }
  | _, _, _ => pure ()

/-- What comes down the stream: it is checked, opened and handed on. -/
def handleIncoming (msg : Arrival) (ctx : Ctx) : Call C String Unit := do
  let c ← self
  let piece ← orPanic (byteSlice c.pkStr 2 10)
  if !containsStr msg.room piece then pure ()
  else
    match ← attempt (lift (validSenderAndReceiver c ctx.toAmbient msg)) with
    | .ok () =>
        match maybeDecrypt c.sk msg with
        | .ok transformed => handleIncomingUnsafe transformed ctx.now 0
        | .error _ => pure ()
    | .error .notForMe => pure ()
    | .error _ =>
        retry { initialTimestamp := ctx.now, attempts := 1, checkPassed := false,
                message := msg }

/-- The check and the decryption of a retried message; `?` forgets which of
them failed. -/
def precheckMessage (msg : Arrival) (ctx : Ctx) : Call C String Arrival := do
  let c ← self
  match ← attempt (lift (validSenderAndReceiver c ctx.toAmbient msg)) with
  | .ok () => question (maybeDecrypt c.sk msg)
  | .error e => question (.error e.text)

/-- What has come back before it was checked: it is checked and opened now. -/
def handleRetry (msg : RetryMessage) (ctx : Ctx) : Call C String Unit := do
  match ← attempt (ε := String) (precheckMessage msg.message ctx) with
  | .ok adaptedEnvelope =>
      handleIncomingUnsafe adaptedEnvelope msg.initialTimestamp msg.attempts
  | .error _ => do
      let next ← orPanic (addU16 C.overflowChecks msg.attempts 1)
      retry { initialTimestamp := msg.initialTimestamp, attempts := next,
              checkPassed := false, message := msg.message }

/-- `ctx.spawn(send_one(msg))` hands the message to the outgoing sink. -/
def handleOutgoing (msg : CoreMessage) (ctx : Ctx) : Call C String Unit := do
  let c ← self
  match maybeEncrypt c.db ctx.toAmbient msg with
  | .ok msg => emit (.send msg)
  | .error _ => pure ()

/-- The one handler behind the stream, the clock and the runners. -/
def handleCoordinatorMessage (msg : CoordinatorMessage) (ctx : Ctx) : Call C String Unit :=
  match msg with
  | .incoming msg => handleIncoming msg ctx
  | .retry msg =>
      if msg.checkPassed then
        handleIncomingUnsafe msg.message msg.initialTimestamp msg.attempts
      else handleRetry msg ctx
  | .outgoing msg => handleOutgoing msg ctx
  | .keygenRequest req => do
      let _ ← attempt (ε := String) (handleKeygenRequest req ctx)
      pure ()
  | .signRequest req => do
      let _ ← attempt (ε := String) (handleSignRequest req ctx)
      pure ()

/-! ## What the runners report -/

/-- A message that came too early goes round again, as checked. -/
def handleProtocolError (error : StageError) (wireMessage : Arrival) (ctx : Ctx) :
    Call C String Unit :=
  match error with
  | .receivedOutOfOrderMessage _ _ =>
      retry { initialTimestamp := ctx.now, attempts := 1, checkPassed := true,
              message := wireMessage }
  | .other _ => pure ()

/-- A keygen player's report. -/
def handleProtocolErrorKG (msg : ProtocolError StageError (IncomingKG C)) (ctx : Ctx) :
    Call C String Unit :=
  handleProtocolError msg.error msg.message.wireMessage ctx

/-- An offline player's report. -/
def handleProtocolErrorO (msg : ProtocolError StageError (IncomingO C)) (ctx : Ctx) :
    Call C String Unit :=
  handleProtocolError msg.error msg.message.wireMessage ctx

/-- A key is there: the share is saved and the request is done. -/
def handleProtocolOutputKG (msg : ProtocolOutput KeygenRequest C.LocalKey) (ctx : Ctx) :
    Call C String Unit := do
  let c ← self
  let group ← orPanic
    (PublicKeyGroup.new msg.input.participantPublicKeys msg.input.threshold.toUInt16 c.pkStr)
  let room := makeRoomId msg.input.requestId group.groupId
  modify fun c => { c with
    offlineStateRunners := Function.update c.offlineStateRunners room none }
  let saved := saveShare c.db ctx.toAmbient
    { publicKeys := msg.input.participantPublicKeys, ownPublicKey := c.pkStr,
      share := msg.output }
  match saved with
  | .ok db => modify ({ · with db })
  | .error _ => pure ()
  emit (.status { requestId := msg.input.requestId, result := sumPk msg.output,
                  requestType := .keygen, requestStatus := .done })

/-- The offline stage is there: a signer goes on with it. -/
def handleProtocolOutputO (msg : ProtocolOutput EnrichedSignRequest C.CompletedOfflineStage)
    (ctx : Ctx) : Call C String Unit := do
  modify fun c => { c with
    offlineStateRunners := Function.update c.offlineStateRunners msg.input.room none }
  match C.bigIntFromHex msg.input.inner.hash with
  | some message => do
      let task : SignTask C :=
        { room := msg.input.room, index := msg.input.i, t := msg.input.sL.length - 1,
          message, completedOfflineStage := msg.output }
      emit (.startS ctx.freshS (Signer.new msg.input task))
      modify fun c => { c with
        signers := Function.update c.signers msg.input.room (some ctx.freshS) }
      emit (.status { requestId := msg.input.inner.requestId, result := "",
                      requestType := .sign, requestStatus := .processing })
  | none =>
      emit (.status { requestId := msg.input.inner.requestId, result := "",
                      requestType := .sign, requestStatus := .error })

/-- The signature is there: the request is done. -/
def handleProtocolOutputS (msg : ProtocolOutput EnrichedSignRequest C.SignatureRecid) :
    Call C String Unit := do
  let (r, s, recid) := C.signatureBytes msg.output
  let sig := "0x" ++ C.hexEncode r ++ C.hexEncode s ++ C.hexEncode recid
  emit (.status { requestId := msg.input.inner.requestId, result := sig,
                  requestType := .sign, requestStatus := .done })

end Coordinator

end MpcServer

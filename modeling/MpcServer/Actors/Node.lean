import MpcServer.Lib.Machine
import MpcServer.Brokers
import MpcServer.Actors.Coordinator

/-!
# One server's actors

The coordinator, its players and signers, and everything between them: the
coordinator's mailbox, the mailbox of every runner, the pending retries, the messages on their way to the
broker. A step is one handler call or one send. Which one comes next is up to the
event, so a run is any interleaving of arrivals from the broker, requests,
expiring timers, handler calls and sends.

A handler that panics takes its actor down and leaves the others alone. The
coordinator also goes down with its stream, and with a send after one that failed.
-/

namespace MpcServer

open Rust Rust.Method

variable (C : Crates)

/-- A message in the coordinator's mailbox. The address beside an output is
proof-only: it says which runner sent it. -/
inductive Mail
  | request (req : Request)
  | outgoing (m : CoreMessage)
  | errorKG (e : ProtocolError StageError (IncomingKG C))
  | errorO (e : ProtocolError StageError (IncomingO C))
  | outputKG (sender : Addr) (out : ProtocolOutput KeygenRequest C.LocalKey)
  | outputO (sender : Addr) (out : ProtocolOutput EnrichedSignRequest C.CompletedOfflineStage)
  | outputS (sender : Addr) (out : ProtocolOutput EnrichedSignRequest C.SignatureRecid)

/-- A runner: its state, its mailbox, whether `started` has run and whether
it still runs. -/
structure Actor (σ μ : Type) where
  state : σ
  mailbox : List μ
  started : Bool
  alive : Bool

/-- The actors of one server. -/
structure Node where
  coordinator : Coordinator C
  alive : Bool
  /-- the state of the coordinator's sink, as long as it has one -/
  sink : Option (Outgoing C Unit)
  /-- the messages of the `send_one` futures that were spawned and have not run -/
  outbox : List CoreMessage
  /-- proof-only: the number the next reception from the broker gets -/
  nextOrigin : Nat
  mailbox : List (Mail C)
  /-- `run_later` closures that have not run -/
  timers : List RetryMessage
  /-- `Retry` messages they have notified the coordinator of -/
  notified : List RetryMessage
  playersKG : List (Actor (PlayerKG C) (IncomingKG C))
  playersO : List (Actor (PlayerO C) (IncomingO C))
  signers : List (Actor (Signer C) (IncomingS C))

/-- What is recorded of a step: the effects of the coordinator's handlers, the
attempts to send (the text that reached the broker, and whether the coordinator
is still up), the end of the stream, receptions from the broker, the mail the
coordinator took up, and the runners' failures. -/
inductive Obs
  | effect (e : Effect C)
  | attempted (m : CoreMessage) (text : Option String) (up : Bool)
  | finished
  | received (origin : Nat) (w : WireMessage)
  | handled (m : Mail C)
  | failedKG (a : Addr)
  | failedO (a : Addr)
  | failedS (a : Addr)

/-- What happens next. `wire` is the next item of the broker's subscription and
`finished` its end; `sendOne` is the send that was spawned first; `fire i` lets the
`i`-th pending timer expire; `tick` is a `MaybeProceed`. -/
inductive Event
  | wire (item : Except String String) (amb : Ambient)
  | finished
  | sendOne (fate : PostFate)
  | request (req : Request)
  | mail (amb : Ambient)
  | fire (i : Nat)
  | retry (amb : Ambient)
  | tickKG (a : Addr) (now : Nat)
  | tickO (a : Addr) (now : Nat)
  | playKG (a : Addr) (now : Nat)
  | playO (a : Addr) (now : Nat)
  | startS (a : Addr)
  | playS (a : Addr)

variable {C}

namespace Actor

variable {σ μ ω ε α : Type}

/-- `do_send`: an actor that is gone takes nothing. -/
def post (m : μ) (x : Actor σ μ) : Actor σ μ :=
  if x.alive then { x with mailbox := x.mailbox ++ [m] } else x

/-- The actor after a handler call with `rest` left in its mailbox. -/
def after (rest : List μ) (r : Except (Stop ε) α × σ × List ω) : Actor σ μ :=
  { state := r.2.1, mailbox := rest, started := true, alive := !isPanic r.1 }

end Actor

namespace Node

/-- The coordinator as it is created, with its store as `db` holds it. -/
def init (sk : C.SecretKey) (db : Tree C) : Node C :=
  { coordinator :=
      { pkStr := C.ownKey sk, sk, db, keygenRunners := fun _ => none,
        offlineStateRunners := fun _ => none, signers := fun _ => none }
    alive := true, sink := some (.join () sk), outbox := [], nextOrigin := 0
    mailbox := [], timers := [], notified := []
    playersKG := [], playersO := [], signers := [] }

/-- What the next handler call is given from outside. -/
def ctx (n : Node C) (amb : Ambient) : Ctx :=
  { toAmbient := amb, freshKG := n.playersKG.length, freshO := n.playersO.length
    freshS := n.signers.length }

/-! ## Effects -/

/-- What an effect does to the rest of the node: `send` spawns a `send_one`. -/
def applyEffect (n : Node C) : Effect C → Node C
  | .send m => { n with outbox := n.outbox ++ [m] }
  | .schedule _ m => { n with timers := n.timers ++ [m] }
  | .deliverKG a m => { n with playersKG := n.playersKG.modify a (Actor.post m) }
  | .deliverO a m => { n with playersO := n.playersO.modify a (Actor.post m) }
  | .deliverS a m => { n with signers := n.signers.modify a (Actor.post m) }
  | .startKG _ p => { n with playersKG := n.playersKG ++ [⟨p, [], true, true⟩] }
  | .startO _ p => { n with playersO := n.playersO ++ [⟨p, [], true, true⟩] }
  | .startS _ s => { n with signers := n.signers ++ [⟨s, [], false, true⟩] }
  | .status _ | .drop _ | .savedGroup _ _ => n

/-- Run a handler of the coordinator and carry out what it did. -/
def perform (n : Node C) (m : Coordinator.Call C String Unit) : Node C × List (Obs C) :=
  let r := m.run n.coordinator
  (r.2.2.foldl applyEffect { n with coordinator := r.2.1, alive := !isPanic r.1 },
    r.2.2.map .effect)

/-- The message of the coordinator for a request that was queued. -/
def requestMessage : Request → CoordinatorMessage
  | .keygen req => .keygenRequest req
  | .sign req => .signRequest req

/-- The handler of each message in the coordinator's mailbox. -/
def handleMail (ctx : Ctx) : Mail C → Coordinator.Call C String Unit
  | .request req => Coordinator.handleCoordinatorMessage (requestMessage req) ctx
  | .outgoing m => Coordinator.handleCoordinatorMessage (.outgoing m) ctx
  | .errorKG e => Coordinator.handleProtocolErrorKG e ctx
  | .errorO e => Coordinator.handleProtocolErrorO e ctx
  | .outputKG _ out => Coordinator.handleProtocolOutputKG out ctx
  | .outputO _ out => Coordinator.handleProtocolOutputO out ctx
  | .outputS _ out => Coordinator.handleProtocolOutputS out

/-! ## What the runners send -/

/-- What a keygen player's message is in the coordinator's mailbox. -/
def mailKG (a : Addr) :
    PlayerSend KeygenRequest C.KeygenProtocolMessage StageError C.LocalKey → Option (Mail C)
  | .error e => some (.errorKG e)
  | .outgoing m => some (.outgoing m)
  | .output out => some (.outputKG a out)
  | .failed _ => none

/-- The same for an offline player. -/
def mailO (a : Addr) :
    PlayerSend EnrichedSignRequest C.OfflineProtocolMessage StageError
      C.CompletedOfflineStage → Option (Mail C)
  | .error e => some (.errorO e)
  | .outgoing m => some (.outgoing m)
  | .output out => some (.outputO a out)
  | .failed _ => none

/-- The same for a signer. -/
def mailS (a : Addr) : SignerSend C → Option (Mail C)
  | .outgoing m => some (.outgoing m)
  | .output out => some (.outputS a out)
  | .failed => none

/-- A failure is seen and goes to nobody. -/
def failureOf {I β ε ο : Type} (o : Obs C) : PlayerSend I β ε ο → Option (Obs C)
  | .failed _ => some o
  | _ => none

/-- The same for a signer. -/
def failureOfS (o : Obs C) : SignerSend C → Option (Obs C)
  | .failed => some o
  | _ => none

/-- What a call of a keygen player comes to. -/
abbrev ResultKG (C : Crates) := Except (Stop StageError) Unit × PlayerKG C ×
  List (PlayerSend KeygenRequest C.KeygenProtocolMessage StageError C.LocalKey)

/-- What a call of an offline player comes to. -/
abbrev ResultO (C : Crates) := Except (Stop StageError) Unit × PlayerO C ×
  List (PlayerSend EnrichedSignRequest C.OfflineProtocolMessage StageError
    C.CompletedOfflineStage)

/-- What a call of a signer comes to. -/
abbrev ResultS (C : Crates) := Except (Stop String) Unit × Signer C × List (SignerSend C)

/-- The node after a call of the keygen player at `a`. -/
def afterKG (n : Node C) (a : Addr) (rest : List (IncomingKG C)) (r : ResultKG C) :
    Node C × List (Obs C) :=
  ({ n with playersKG := n.playersKG.set a (.after rest r)
            mailbox := n.mailbox ++ r.2.2.filterMap (mailKG a) },
    r.2.2.filterMap (failureOf (.failedKG a)))

/-- The node after a call of an offline player. -/
def afterO (n : Node C) (a : Addr) (rest : List (IncomingO C)) (r : ResultO C) :
    Node C × List (Obs C) :=
  ({ n with playersO := n.playersO.set a (.after rest r)
            mailbox := n.mailbox ++ r.2.2.filterMap (mailO a) },
    r.2.2.filterMap (failureOf (.failedO a)))

/-- The node after a call of a signer. -/
def afterS (n : Node C) (a : Addr) (rest : List (IncomingS C)) (r : ResultS C) :
    Node C × List (Obs C) :=
  ({ n with signers := n.signers.set a (.after rest r)
            mailbox := n.mailbox ++ r.2.2.filterMap (mailS a) },
    r.2.2.filterMap (failureOfS (.failedS a)))

/-! ## Steps -/

/-- The envelope an item of the subscription brings the coordinator. -/
def arriving (n : Node C) (item : Except String String) : Option WireMessage :=
  match parseSigned C item with
  | some (.ok w) => if takeNonOwned n.coordinator.pkStr (.ok w) then some w else none
  | _ => none

/-- An envelope from the broker reaches the coordinator. -/
def receive (n : Node C) (w : WireMessage) (amb : Ambient) : Node C × List (Obs C) :=
  let r := perform { n with nextOrigin := n.nextOrigin + 1 }
    (Coordinator.handleCoordinatorMessage (.incoming ⟨w, n.nextOrigin⟩) (n.ctx amb))
  (r.1, .received n.nextOrigin w :: r.2)

/-- The coordinator takes up a mail. -/
def takeMail (n : Node C) (m : Mail C) (rest : List (Mail C)) (amb : Ambient) :
    Node C × List (Obs C) :=
  let r := perform { n with mailbox := rest } (handleMail (n.ctx amb) m)
  (r.1, .handled m :: r.2)

/-- The coordinator takes up a retried message. -/
def takeRetry (n : Node C) (m : RetryMessage) (rest : List RetryMessage) (amb : Ambient) :
    Node C × List (Obs C) :=
  perform { n with notified := rest }
    (Coordinator.handleCoordinatorMessage (.retry m) (n.ctx amb))

/-- One step of a node. -/
def step : Machine.Step (Node C) Event (Obs C) := fun n e =>
  match e with
  | .wire item amb =>
      if n.alive then
        match n.arriving item with
        | some w => some (n.receive w amb)
        | none => some (n, [])
      else none
  | .finished => if n.alive then some ({ n with alive := false }, [.finished]) else none
  | .sendOne fate =>
      match n.alive, n.outbox with
      | true, m :: rest =>
          match post n.sink fate m with
          | some (sink, text) => some ({ n with sink, outbox := rest }, [.attempted m text true])
          -- `start_send` finds no state, and the panic takes the coordinator down
          | none => some ({ n with sink := none, outbox := rest, alive := false },
              [.attempted m none false])
      | _, _ => none
  | .request req =>
      if n.alive then
        some ({ n with mailbox := n.mailbox ++ [.request req] }, [])
      else some (n, [])
  | .mail amb =>
      match n.alive, n.mailbox with
      | true, m :: rest => some (n.takeMail m rest amb)
      | _, _ => none
  | .fire i =>
      match n.timers[i]? with
      | some m => some ({ n with timers := n.timers.eraseIdx i
                                 notified := n.notified ++ [m] }, [])
      | none => none
  | .retry amb =>
      match n.alive, n.notified with
      | true, m :: rest => some (n.takeRetry m rest amb)
      | _, _ => none
  | .tickKG a now =>
      match n.playersKG[a]? with
      | some ⟨p, mailbox, _, true⟩ =>
          some (n.afterKG a mailbox ((MpcPlayer.tick C.msgKG now).run p))
      | _ => none
  | .tickO a now =>
      match n.playersO[a]? with
      | some ⟨p, mailbox, _, true⟩ =>
          some (n.afterO a mailbox ((MpcPlayer.tick C.msgO now).run p))
      | _ => none
  | .playKG a now =>
      match n.playersKG[a]? with
      | some ⟨p, m :: rest, _, true⟩ =>
          some (n.afterKG a rest ((MpcPlayer.handle C.overflowChecks C.msgKG now m).run p))
      | _ => none
  | .playO a now =>
      match n.playersO[a]? with
      | some ⟨p, m :: rest, _, true⟩ =>
          some (n.afterO a rest ((MpcPlayer.handle C.overflowChecks C.msgO now m).run p))
      | _ => none
  | .startS a =>
      match n.signers[a]? with
      | some ⟨s, mailbox, false, true⟩ => some (n.afterS a mailbox (Signer.started.run s))
      | _ => none
  | .playS a =>
      match n.signers[a]? with
      | some ⟨s, m :: rest, true, true⟩ => some (n.afterS a rest ((Signer.handle m).run s))
      | _ => none

end Node

end MpcServer

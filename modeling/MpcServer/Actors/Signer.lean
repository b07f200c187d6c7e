import MpcServer.Crates

/-!
# The signer

After the offline stage one partial signature from every other participant
completes the signature. The signer keeps what comes in, in order, and tries
to complete exactly when it holds `t` of them.
-/

namespace MpcServer

open Rust Rust.Method

variable (C : Crates)

/-- What a signer is handed. -/
abbrev IncomingS := IncomingMessage (Msg C.PartialSignature)

/-- What a signer is to sign, with whom and under which index. -/
structure SignTask where
  room : String
  index : UInt16
  t : Nat
  message : C.BigInt
  completedOfflineStage : C.CompletedOfflineStage

/-- A signer with the parts that it has collected. -/
structure Signer where
  input : EnrichedSignRequest
  task : SignTask C
  partialSigs : List C.PartialSignature

/-- What a signer sends to the coordinator. `failed` is proof-only: it marks
a signature that could not be assembled. -/
inductive SignerSend
  | outgoing (msg : CoreMessage)
  | output (out : ProtocolOutput EnrichedSignRequest C.SignatureRecid)
  | failed

variable {C}

namespace Signer

/-- A method of the signer's. -/
abbrev Call (C : Crates) (α : Type) := Method (Signer C) (SignerSend C) String α

/-- A signer without any parts. -/
def new (input : EnrichedSignRequest) (task : SignTask C) : Signer C :=
  { input, task, partialSigs := [] }

/-- The own part goes to everybody. -/
def sendMyPartialSignature : Call C Unit := do
  let s ← self
  let (_, partialSig) ← question
    (context (C.signManualNew s.task.message s.task.completedOfflineStage) "SignManual::new")
  let sigMsg : Msg C.PartialSignature :=
    { sender := s.task.index, receiver := none, body := partialSig }
  match C.msgS.write sigMsg with
  | some message => emit (.outgoing { room := s.task.room, message })
  | none => pure ()

/-- With `t` parts the signature is completed. -/
def finishIfPossible : Call C Unit := do
  let s ← self
  match C.signManualNew s.task.message s.task.completedOfflineStage with
  | none => do
      emit .failed
      question (.error "SignManual::new")
  | some (state, _) =>
      if s.partialSigs.length = s.task.t then
        match C.complete state s.partialSigs with
        | some signature => emit (.output { input := s.input, output := signature })
        | none => emit .failed
      else pure ()

/-- The actor's first call: it computes its part and says it. -/
def started : Call C Unit := do
  let _ ← attempt (ε := String) sendMyPartialSignature
  pure ()

/-- `Handler<IncomingMessage<Msg<PartialSignature>>>`. -/
def handle (msg : IncomingS C) : Call C Unit := do
  let s ← self
  if msg.message.sender = s.task.index then pure ()
  else do
    modify fun s => { s with partialSigs := s.partialSigs ++ [msg.message.body] }
    let _ ← attempt (ε := String) finishIfPossible
    pure ()

/-! ## What a signer keeps, and what it sends -/

/-- The identity of a signer never changes. -/
def Same (s r : Signer C) : Prop := r.input = s.input ∧ r.task = s.task

theorem Same.refl (s : Signer C) : Same s s := ⟨rfl, rfl⟩

/-- What a signer sends stays in its room, or answers its request. -/
def Sends (s : Signer C) : SignerSend C → Prop
  | .outgoing m => m.room = s.task.room
  | .output o => o.input = s.input
  | .failed => True

theorem finishIfPossible_keeps (s : Signer C) :
    Keeps (Same s) (Sends s) (finishIfPossible : Call C Unit) := by
  refine keeps_bind_self fun r hr => ?_
  split
  · exact keeps_bind (keeps_emit trivial) fun _ => keeps_question _
  · refine keeps_ite (fun _ => ?_) fun _ => keeps_pure _
    split
    · exact keeps_emit hr.1
    · exact keeps_emit trivial

theorem started_keeps (s : Signer C) : Keeps (Same s) (Sends s) (started : Call C Unit) := by
  refine keeps_bind (keeps_attempt (keeps_bind_self fun r hr => ?_)) fun _ => keeps_pure _
  refine keeps_bind (keeps_question _) fun ⟨_, partialSig⟩ => ?_
  dsimp only
  split
  · exact keeps_emit (congrArg SignTask.room hr.2)
  · exact keeps_pure _

theorem handle_keeps (s : Signer C) (m : IncomingS C) :
    Keeps (Same s) (Sends s) (handle m : Call C Unit) :=
  keeps_bind_self fun _ _ => keeps_ite (fun _ => keeps_pure _) fun _ =>
    keeps_bind (keeps_modify fun _ h => h) fun _ =>
      keeps_bind (keeps_attempt (finishIfPossible_keeps s)) fun _ => keeps_pure _

end Signer

end MpcServer

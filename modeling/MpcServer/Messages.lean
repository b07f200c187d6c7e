import Mathlib.Logic.Basic

/-!
# The messages of the server

The protobuf records a client and the other servers exchange, and the
messages the actors send each other. A protocol message body stays a
parameter: the state machines of the ECDSA library own those types.
-/

namespace MpcServer

/-! ## Protobuf -/

/-- A request for a key. -/
structure KeygenRequest where
  requestId : String
  participantPublicKeys : List String
  threshold : UInt32
  deriving DecidableEq, Repr

/-- A request for a signature. -/
structure SignRequest where
  requestId : String
  participantPublicKeys : List String
  publicKey : String
  hash : String
  deriving DecidableEq, Repr

/-- What a client asks for. -/
inductive Request
  | keygen (req : KeygenRequest)
  | sign (req : SignRequest)
  deriving DecidableEq, Repr

/-- The id the client chose. -/
def Request.requestId : Request → String
  | .keygen req => req.requestId
  | .sign req => req.requestId

/-- What a status is about. -/
inductive RequestType
  | unknownType
  | keygen
  | sign
  deriving DecidableEq, Repr

/-- How far a request has got. -/
inductive RequestStatus
  | unknownStatus
  | received
  | processing
  | done
  | error
  deriving DecidableEq, Repr

/-- What is recorded for an id, and answered to `check_result`. -/
structure CheckResultResponse where
  requestId : String
  result : String
  requestType : RequestType
  requestStatus : RequestStatus
  deriving DecidableEq, Repr

/-- The signed envelope on the broker. -/
structure WireMessage where
  room : String
  payload : String
  senderPublicKey : String
  signature : String
  deriving DecidableEq, Repr

/-- An outgoing message before it is signed. -/
structure CoreMessage where
  room : String
  message : String
  deriving DecidableEq, Repr

/-! ## Protocol messages -/

/-- `round_based::Msg`. -/
structure Msg (β : Type) where
  sender : UInt16
  receiver : Option UInt16
  body : β

/-- A protocol message read without looking into its body. -/
structure GenericProtocolMessage (ρ : Type) where
  sender : UInt16
  receiver : Option UInt16
  body : ρ
  deriving DecidableEq, Repr

/-- The wrapper of a ciphertext in a body. -/
structure Encrypted where
  encrypted : String
  deriving DecidableEq, Repr

/-- The errors of the two state machines, as far as the coordinator tells
them apart. -/
inductive StageError
  | receivedOutOfOrderMessage (currentRound msgRound : UInt16)
  | other (text : String)
  deriving DecidableEq, Repr

/-! ## Actor messages -/

/-- A copy of an envelope inside the server. `origin` is proof-only: it says
which reception from the broker the copy stems from. No branch reads it, and
cloning or decrypting a copy keeps it. -/
structure Arrival extends WireMessage where
  origin : Nat
  deriving DecidableEq, Repr

/-- An envelope on the clock. -/
structure RetryMessage where
  initialTimestamp : Nat
  attempts : UInt16
  checkPassed : Bool
  message : Arrival
  deriving DecidableEq, Repr

/-- What the coordinator takes up by `handle_coordinator_message`. -/
inductive CoordinatorMessage
  | incoming (msg : Arrival)
  | retry (msg : RetryMessage)
  | outgoing (msg : CoreMessage)
  | signRequest (req : SignRequest)
  | keygenRequest (req : KeygenRequest)
  deriving DecidableEq, Repr

/-- A message for a runner, with its envelope. -/
structure IncomingMessage (μ : Type) where
  room : String
  wireMessage : Arrival
  message : μ

/-- What a player reports. -/
structure ProtocolError (ε μ : Type) where
  room : String
  error : ε
  message : μ

/-- What a runner has come to. -/
structure ProtocolOutput (ι ο : Type) where
  input : ι
  output : ο

/-- A sign request with the room and the indices of its session. -/
structure EnrichedSignRequest where
  inner : SignRequest
  room : String
  i : UInt16
  sL : List UInt16
  deriving DecidableEq, Repr

end MpcServer

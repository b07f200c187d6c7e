import MpcServer.Group

/-!
# The crates the server calls

Everything here is code of other packages: curve arithmetic, encryption,
encodings, the two ECDSA state machines, JSON. The model takes them as
parameters; what a theorem relies on is a named hypothesis about them.
Randomness is an argument (`seed`), so that every function is a function.
-/

namespace MpcServer

/-- `round_based::StateMachine`. `proceed` and `handleIncoming` also leave
the machine they were called on; `drainQueue` is `message_queue().drain(..)`. -/
class StateMachine (SM : Type) (β ε ο : outParam Type) where
  handleIncoming : SM → Msg β → Except ε Unit × SM
  messageQueue : SM → List (Msg β)
  drainQueue : SM → SM
  wantsToProceed : SM → Bool
  proceed : SM → Except ε Unit × SM
  roundTimeout : SM → Option Nat
  currentRound : SM → UInt16
  isFinished : SM → Bool
  pickOutput : SM → Option (Except ε ο) × SM

/-- A type that serde writes as `β` and reads back from it. -/
structure Serde (α β : Type) where
  write : α → Option β
  read : β → Option α

/-- Writing never fails, and what was written reads back as it was. -/
def Serde.RoundTrips {α β : Type} (c : Serde α β) : Prop :=
  ∀ a, ∃ b, c.write a = some b ∧ c.read b = some a

/-- `libsecp256k1`, `sha2` and `ecies`. -/
structure Secp256k1 where
  SecretKey : Type
  PublicKey : Type
  Signature : Type
  Digest : Type
  publicKeyOf : SecretKey → PublicKey
  /-- `PublicKey::parse_slice(_, None)` -/
  parsePublicKey : ByteArray → Option PublicKey
  serializeCompressed : PublicKey → ByteArray
  parseSignature : ByteArray → Option Signature
  serializeSignature : Signature → ByteArray
  sha256 : ByteArray → Digest
  sign : Digest → SecretKey → Signature
  verify : Digest → Signature → PublicKey → Bool
  encrypt : PublicKey → (seed : Nat) → ByteArray → Option ByteArray
  decrypt : SecretKey → ByteArray → Option ByteArray

/-- `hex`, `base64` and the hexadecimal reader of `curv`. -/
structure Encodings where
  hexEncode : ByteArray → String
  hexDecode : String → Option ByteArray
  base64Encode : ByteArray → String
  base64Decode : String → Option ByteArray
  BigInt : Type
  bigIntFromHex : String → Option BigInt

/-- `multi_party_ecdsa`: key generation, the offline stage, the one-round
signing that follows it. -/
structure MultiPartyEcdsa extends Encodings where
  KeygenProtocolMessage : Type
  OfflineProtocolMessage : Type
  PartialSignature : Type
  Keygen : Type
  OfflineStage : Type
  LocalKey : Type
  CompletedOfflineStage : Type
  SignManual : Type
  SignatureRecid : Type
  /-- `Keygen::new(i, t, n)` -/
  keygenNew : (i t n : UInt16) → Option Keygen
  /-- `OfflineStage::new(i, s_l, local_key)` -/
  offlineStageNew : UInt16 → List UInt16 → LocalKey → Option OfflineStage
  keygenMachine : StateMachine Keygen KeygenProtocolMessage StageError LocalKey
  offlineMachine :
    StateMachine OfflineStage OfflineProtocolMessage StageError CompletedOfflineStage
  /-- `SignManual::new(message, completed_offline_stage)` -/
  signManualNew : BigInt → CompletedOfflineStage → Option (SignManual × PartialSignature)
  complete : SignManual → List PartialSignature → Option SignatureRecid
  /-- `local_key.t` -/
  threshold : LocalKey → UInt16
  /-- `local_key.public_key().to_bytes(true)` -/
  publicKeyBytes : LocalKey → ByteArray
  /-- the bytes of `r`, of `s` and of `recid` -/
  signatureBytes : SignatureRecid → ByteArray × ByteArray × ByteArray

/-- `serde_json` at the types the server reads and writes. `Blob` is a value
in a sled tree. -/
structure SerdeJson extends MultiPartyEcdsa where
  RawValue : Type
  rawValueText : RawValue → String
  rawValueFromString : String → Option RawValue
  wireMessage : Serde WireMessage String
  genericMessage : Serde (GenericProtocolMessage RawValue) String
  encrypted : Serde Encrypted String
  msgKG : Serde (Msg KeygenProtocolMessage) String
  msgO : Serde (Msg OfflineProtocolMessage) String
  msgS : Serde (Msg PartialSignature) String
  localKey : Serde LocalKey ByteArray
  Blob : Type
  publicKeyGroup : Serde PublicKeyGroup Blob
  encryptedStoredLocalShare : Serde EncryptedStoredLocalShare Blob
  checkResultResponse : Serde CheckResultResponse Blob

/-- The crates, and whether the build checks arithmetic for overflow
(`cargo build` does, `cargo build --release` does not). -/
structure Crates extends Secp256k1, SerdeJson where
  overflowChecks : Bool

instance (C : Crates) : StateMachine C.Keygen C.KeygenProtocolMessage StageError C.LocalKey :=
  C.keygenMachine

instance (C : Crates) :
    StateMachine C.OfflineStage C.OfflineProtocolMessage StageError C.CompletedOfflineStage :=
  C.offlineMachine

/-- The text every server is known by: its compressed key in hexadecimal. -/
def Crates.ownKey (C : Crates) (sk : C.SecretKey) : String :=
  C.hexEncode (C.serializeCompressed (C.publicKeyOf sk))

/-- What fails outside the program in one handler call, and what it draws
from outside: the clock, the answers of the database, a random seed. -/
structure Ambient where
  now : Nat
  getOk : Bool
  casOk : Bool
  seed : Nat
  deriving DecidableEq, Repr

end MpcServer

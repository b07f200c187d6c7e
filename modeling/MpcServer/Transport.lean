import MpcServer.Crypto

/-!
# The signed envelope

`sign_envelope` wraps an outgoing message and `do_parse_signed` opens what
comes in from the broker. Both hash the payload; neither hashes the room.
-/

namespace MpcServer

open Rust

variable {C : Crates}

/-- What is signed and verified: the hash of the payload's bytes. -/
def payloadDigest (payload : String) : C.Digest := C.sha256 payload.toUTF8

/-- `sign_envelope`; only the payload is signed. -/
def signEnvelope (key : C.SecretKey) (pubKey : String) (envelope : CoreMessage) :
    Except String WireMessage :=
  let message := payloadDigest envelope.message
  let sig := C.sign message key
  let signature := C.hexEncode (C.serializeSignature sig)
  .ok { room := envelope.room, payload := envelope.message, senderPublicKey := pubKey, signature }

variable (C) in
/-- `do_parse_signed` -/
def doParseSigned (msg : String) : Except String WireMessage := do
  let signed ← context (C.wireMessage.read msg) "deserialize message"
  let bytes ← context (C.hexDecode signed.senderPublicKey) "Wrong pub key"
  let senderPub ← context (C.parsePublicKey bytes) "Failed to parse pub key"
  let sbytes ← context (C.hexDecode signed.signature) "Wrong signature"
  let sig ← context (C.parseSignature sbytes) "InvalidSignature"
  let message := payloadDigest signed.payload
  if C.verify message sig senderPub then pure signed else .error "Verification failed."

variable (C) in
/-- An item of the subscription: a broken one is dropped, an envelope that
does not parse or verify stays in the stream as an error. -/
def parseSigned : Except String String → Option (Except String WireMessage)
  | .ok msg => some (doParseSigned C msg)
  | .error _ => none

/-- The filter behind it: own messages echoed by the broker are dropped. -/
def takeNonOwned (ownPubKey : String) : Except String WireMessage → Bool
  | .ok envelope => envelope.senderPublicKey ≠ ownPubKey
  | .error _ => true

/-- The envelope carries a signature of its payload under the key it names. -/
def SignatureHolds (w : WireMessage) (pk : C.PublicKey) : Prop :=
  ∃ bytes sbytes sig, C.hexDecode w.senderPublicKey = some bytes ∧
    C.parsePublicKey bytes = some pk ∧ C.hexDecode w.signature = some sbytes ∧
    C.parseSignature sbytes = some sig ∧ C.verify (payloadDigest w.payload) sig pk = true

/-- `do_parse_signed` accepts exactly the texts of envelopes whose signature
holds, and hands the envelope on as it was written. -/
theorem doParseSigned_eq_ok {msg : String} {w : WireMessage} :
    doParseSigned C msg = .ok w ↔
      C.wireMessage.read msg = some w ∧ ∃ pk, SignatureHolds (C := C) w pk := by
  unfold doParseSigned SignatureHolds
  constructor
  · intro h
    simp only [bind_eq_ok, context_eq_ok] at h
    obtain ⟨w', hr, bytes, hb, pk, hpk, sbytes, hs, sig, hsig, hv⟩ := h
    split at hv
    · rename_i hver
      cases hv
      exact ⟨hr, pk, bytes, sbytes, sig, hb, hpk, hs, hsig, hver⟩
    · cases hv
  · rintro ⟨hr, pk, bytes, sbytes, sig, hb, hpk, hs, hsig, hver⟩
    simp [hr, hb, hpk, hs, hsig, hver, bind, Except.bind, pure, Except.pure]

/-- The room takes no part in the check. -/
theorem signatureHolds_room {w : WireMessage} {pk : C.PublicKey} (room : String) :
    SignatureHolds (C := C) { w with room } pk ↔ SignatureHolds w pk := Iff.rfl

end MpcServer

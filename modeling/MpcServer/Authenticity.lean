import MpcServer.Transport
import MpcServer.Sample

/-!
# What a signature on an envelope vouches for

With ideal signatures an accepted envelope leads back to a call of
`sign_envelope` by the holder of its key. The call fixes the payload; the
room, which picks the group and the runner, is whatever the envelope says.
-/

namespace MpcServer

open Rust

variable {C : Crates}

variable (C) in
/-- The arguments of one call of `sign_envelope`. -/
structure SignCall where
  key : C.SecretKey
  pubKey : String
  envelope : CoreMessage

/-- The digest a call signs, under the key that belongs to its secret. -/
def SignCall.Signs (call : SignCall C) (pk : C.PublicKey) (digest : C.Digest) : Prop :=
  C.publicKeyOf call.key = pk ∧ payloadDigest call.envelope.message = digest

/-- Signatures are ideal with respect to the calls of `sign_envelope` there
were: one verifies only if the holder of the key signed that very digest.
Distinct texts have distinct digests. -/
structure IdealSignatures (calls : Set (SignCall C)) : Prop where
  signed_of_verify : ∀ digest sig pk, C.verify digest sig pk = true →
    ∃ call ∈ calls, call.Signs pk digest
  collisionFree : Function.Injective C.sha256

/-- The holder of the envelope's key signed its payload, in the room given. -/
def SignedIn (calls : Set (SignCall C)) (w : WireMessage) (room : String) : Prop :=
  ∃ pk, SignatureHolds w pk ∧ ∃ call ∈ calls, C.publicKeyOf call.key = pk ∧
    call.envelope.room = room ∧ call.envelope.message = w.payload

theorem payloadDigest_injective {calls : Set (SignCall C)} (hideal : IdealSignatures calls) :
    Function.Injective (payloadDigest (C := C)) :=
  fun _ _ h => String.toByteArray_inj.mp (hideal.collisionFree h)

/-- Whoever moves an accepted envelope to another room has it accepted there. -/
theorem doParseSigned_anyRoom {msg msg' room : String} {w : WireMessage}
    (h : doParseSigned C msg = .ok w) (hread : C.wireMessage.read msg' = some { w with room }) :
    doParseSigned C msg' = .ok { w with room } := by
  obtain ⟨-, pk, hpk⟩ := doParseSigned_eq_ok.mp h
  exact doParseSigned_eq_ok.mpr ⟨hread, pk, (signatureHolds_room room).mpr hpk⟩

/-- **Payload and key are vouched for, the room is not.** An accepted
envelope's payload was signed by the holder of its key, in some room; and the
same envelope under any other room is accepted as well. -/
theorem doParseSigned_signedIn {calls : Set (SignCall C)} (hideal : IdealSignatures calls)
    {msg : String} {w : WireMessage} (h : doParseSigned C msg = .ok w) :
    (∃ room, SignedIn calls w room) ∧
      ∀ msg' room, C.wireMessage.read msg' = some { w with room } →
        doParseSigned C msg' = .ok { w with room } := by
  refine ⟨?_, fun msg' room hread => doParseSigned_anyRoom h hread⟩
  obtain ⟨-, pk, hpk⟩ := doParseSigned_eq_ok.mp h
  obtain ⟨bytes, sbytes, sig, hb, hparse, hs, hsig, hverify⟩ := hpk
  obtain ⟨call, hcall, hkey, hdigest⟩ := hideal.signed_of_verify _ _ _ hverify
  have hpayload : call.envelope.message = w.payload := payloadDigest_injective hideal hdigest
  exact ⟨call.envelope.room, pk, ⟨bytes, sbytes, sig, hb, hparse, hs, hsig, hverify⟩,
    call, hcall, hkey, rfl, hpayload⟩

/-! ## One call, two rooms -/

namespace Sample

/-- Bob's message of the first keygen round, signed for room `k1`. -/
def bobsCall (C : Crates) (key : C.SecretKey) : SignCall C :=
  { key, pubKey := Party.bob.keyText
    envelope :=
      { room := "k1@73ee5cd6c20e0c08"
        message := messageText { sender := 2, receiver := none, body := keygenBodyText 1 } } }

/-- An envelope of Bob's whose signature is of the payload. -/
def bobsEnvelope (room : String) : WireMessage :=
  let payload := messageText { sender := 2, receiver := none, body := keygenBodyText 1 }
  { room, payload, senderPublicKey := Party.bob.keyText
    signature := Hex.encode (serializeSignature ⟨.bob, payload.toUTF8.data.toList⟩) }

/-- The same payload in two rooms. -/
def movedScenario : Scenario where
  wires := [bobsEnvelope "k1@73ee5cd6c20e0c08", bobsEnvelope "k2@73ee5cd6c20e0c08"]

/-- Signatures that verify only when Bob made
them in that call. -/
def verifyBobs (digest : List UInt8) (sig : Signature) (pk : Party) : Bool :=
  decide (sig = { signer := pk, digest } ∧ pk = .bob ∧
    digest = (bobsEnvelope "").payload.toUTF8.data.toList)

theorem verifyBobs_only {digest : List UInt8} {sig : Signature} {pk : Party}
    (h : verifyBobs digest sig pk = true) :
    pk = .bob ∧ digest = (bobsEnvelope "").payload.toUTF8.data.toList :=
  (of_decide_eq_true h).2

/-- Crates under which Bob has signed one payload. -/
def bobSignsOnce : Crates where
  toSecp256k1 := { secp256k1 with sha256 := fun bytes => bytes.data.toList, verify := verifyBobs }
  toSerdeJson := serdeJson movedScenario
  overflowChecks := false

theorem bobSignsOnce_ideal :
    IdealSignatures (C := bobSignsOnce) {bobsCall bobSignsOnce Party.bob} where
  signed_of_verify digest sig pk h := by
    obtain ⟨hpk, hdigest⟩ := verifyBobs_only h
    exact ⟨_, rfl, hpk.symm, hdigest.symm⟩
  collisionFree _ _ h := ByteArray.ext (Array.toList_inj.mp h)

theorem doParseSigned_signedIn_bob :
    (∃ room, SignedIn {bobsCall bobSignsOnce Party.bob} (bobsEnvelope "k1@73ee5cd6c20e0c08") room) ∧
      ∀ msg' room,
        bobSignsOnce.wireMessage.read msg' = some { bobsEnvelope "k1@73ee5cd6c20e0c08" with room } →
        doParseSigned bobSignsOnce msg' = .ok { bobsEnvelope "k1@73ee5cd6c20e0c08" with room } :=
  doParseSigned_signedIn bobSignsOnce_ideal
    (show doParseSigned bobSignsOnce (wireText (bobsEnvelope "k1@73ee5cd6c20e0c08")) = .ok _ by
      decide +kernel)

/-- The envelope moved to room `k2` is accepted, and nobody signed it there. -/
theorem accepted_in_unsigned_room :
    IdealSignatures (C := bobSignsOnce) {bobsCall bobSignsOnce Party.bob} ∧
      doParseSigned bobSignsOnce (wireText (bobsEnvelope "k2@73ee5cd6c20e0c08")) =
        .ok (bobsEnvelope "k2@73ee5cd6c20e0c08") ∧
      ¬ SignedIn (C := bobSignsOnce) {bobsCall bobSignsOnce Party.bob}
        (bobsEnvelope "k2@73ee5cd6c20e0c08") (bobsEnvelope "k2@73ee5cd6c20e0c08").room := by
  refine ⟨bobSignsOnce_ideal, by decide +kernel, ?_⟩
  rintro ⟨pk, -, call, rfl, -, hroom, -⟩
  exact absurd hroom (by decide)

end Sample

end MpcServer

import MpcServer.Storage

/-!
# Point-to-point messages

A message with a receiver travels encrypted: the body is replaced by an
`Encrypted` object under the receiver's key on the way out and put back on
the way in. A broadcast is left alone in both directions.
-/

namespace MpcServer

open Rust

variable {C : Crates}

namespace PublicKeyGroup

/-- `PublicKeyGroup::encrypt`, for the party of this index. -/
def encrypt (group : PublicKeyGroup) (seed index : Nat) (plaintext : String) :
    Except String String := do
  let pk ← match group.getPublicKey index with
    | .ok pk => .ok pk
    | .error .invalidIndex => .error "The index is not in the range [1, n]."
  let pk ← context (C.hexDecode pk) "hex"
  let pk ← context (C.parsePublicKey pk) "parse public key"
  let ciphertext ← context (C.encrypt pk seed plaintext.toUTF8) "ecies"
  pure (C.base64Encode ciphertext)

/-- `PublicKeyGroup::decrypt`, with the own key. -/
def decrypt (sk : C.SecretKey) (ciphertext : String) : Except String String := do
  let ciphertext ← context (C.base64Decode ciphertext) "decode base64 ciphertext"
  let plaintext ← context (C.decrypt sk ciphertext) "decrypt"
  context (String.fromUTF8? plaintext) "decode utf8"

end PublicKeyGroup

/-- `SimpleEncrypter::maybe_encrypt`; the message is edited only when every
step went well. -/
def maybeEncrypt (db : Tree C) (amb : Ambient) (msg : CoreMessage) :
    Except String CoreMessage := do
  let m ← context (C.genericMessage.read msg.message) "parse GenericProtocolMessage"
  match m.receiver with
  | some receiver =>
      let groupId ← match extractGroupId msg.room with
        | .ok groupId => .ok groupId
        | .error .failedToParseGroupId => .error "extract group_id"
      let group ← withContext (retrieveGroup db amb groupId) "Retrieve group."
      let encrypted ← withContext
        (group.encrypt (C := C) amb.seed receiver.toNat (C.rawValueText m.body)) "encrypt"
      let body ← context (C.encrypted.write { encrypted }) "stringify Encrypted"
      let body ← context (C.rawValueFromString body) "convert to RawValue"
      let text ← context (C.genericMessage.write { m with body }) "convert to string"
      pure { msg with message := text }
  | none => pure msg

/-- `SimpleDecrypter::maybe_decrypt`. -/
def maybeDecrypt (sk : C.SecretKey) (msg : Arrival) : Except String Arrival := do
  let m ← context (C.genericMessage.read msg.payload) "parse GenericProtocolMessage"
  match m.receiver with
  | some _ =>
      let encryptedMessage ← context (C.encrypted.read (C.rawValueText m.body)) "parse encrypted"
      let decrypted ← withContext
        (PublicKeyGroup.decrypt (C := C) sk encryptedMessage.encrypted) "decrypt"
      let body ← context (C.rawValueFromString decrypted) "convert to RawValue"
      let text ← context (C.genericMessage.write { m with body }) "convert to string"
      pure { msg with payload := text }
  | none => pure msg

/-- Decryption replaces the body of a point-to-point message, and nothing else. -/
theorem maybeDecrypt_eq_ok {sk : C.SecretKey} {msg msg' : Arrival}
    (h : maybeDecrypt sk msg = .ok msg') :
    ∃ m, C.genericMessage.read msg.payload = some m ∧
      ((m.receiver = none ∧ msg' = msg) ∨
        ∃ body text, C.genericMessage.write { m with body } = some text ∧
          msg' = { msg with payload := text }) := by
  unfold maybeDecrypt at h
  obtain ⟨m, hm, h⟩ := bind_eq_ok.mp h
  refine ⟨m, context_eq_ok.mp hm, ?_⟩
  split at h
  · simp only [bind_eq_ok, context_eq_ok] at h
    obtain ⟨_, -, _, -, body, -, text, htext, h⟩ := h
    cases h
    exact .inr ⟨body, text, htext, rfl⟩
  · cases h
    exact .inl ⟨‹_›, rfl⟩

theorem maybeDecrypt_origin {sk : C.SecretKey} {msg msg' : Arrival}
    (h : maybeDecrypt sk msg = .ok msg') : msg'.origin = msg.origin := by
  obtain ⟨m, -, ⟨-, rfl⟩ | ⟨_, _, -, rfl⟩⟩ := maybeDecrypt_eq_ok h <;> rfl

end MpcServer

import MpcServer.Lib.FirstWrite
import MpcServer.Crates

/-!
# The stores

Groups and key shares lie in one sled tree, the group under its id and the
share under its public key, with no prefix to tell them apart. Both are
written by `compare_and_swap` from "absent", and the answer "there is an
entry already" is dropped: an entry is written once and the later save
reports success.
-/

namespace MpcServer

open Rust

variable (C : Crates)

/-- The tree `local_shares`. -/
abbrev Tree := String → Option C.Blob

variable {C}

/-- `db.get(key)?`, turned into an error when there is no entry. -/
def Tree.get (db : Tree C) (amb : Ambient) (key notFound : String) : Except String C.Blob :=
  if amb.getOk then context (db key) notFound else .error "sled"

/-- `db.compare_and_swap(key, None, Some(value))` with the conflict dropped. -/
def Tree.compareAndSwap (db : Tree C) (amb : Ambient) (key : String) (value : C.Blob) :
    Except String (Tree C) :=
  if amb.casOk then .ok (FirstWrite.put db key value) else .error "Save to db."

/-! ## The group store -/

/-- `retrieve_group` -/
def retrieveGroup (db : Tree C) (amb : Ambient) (groupId : String) :
    Except String PublicKeyGroup := do
  let group ← db.get amb groupId "Retrieving group."
  context (C.publicKeyGroup.read group) "Decode group."

/-- `save_group` -/
def saveGroup (db : Tree C) (amb : Ambient) (group : PublicKeyGroup) :
    Except String (Tree C) := do
  let value ← context (C.publicKeyGroup.write group) "serialize local share"
  db.compareAndSwap amb group.groupId value

/-! ## The share store -/

variable (C) in
/-- A share with the keys of its group. -/
structure StoredLocalShare where
  publicKeys : List String
  ownPublicKey : String
  share : C.LocalKey

namespace StoredLocalShare

/-- `get_own_public_key` -/
def getOwnPublicKey (s : StoredLocalShare C) : Except String C.PublicKey := do
  let ownPk ← context (C.hexDecode s.ownPublicKey) "decode own public key"
  context (C.parsePublicKey ownPk) "parse public key"

/-- The share, closed under the own key. -/
def encrypt (s : StoredLocalShare C) (seed : Nat) :
    Except String EncryptedStoredLocalShare := do
  let pk ← withContext s.getOwnPublicKey "get own public key"
  let shareBytes ← context (C.localKey.write s.share) "encoding share"
  let ciphertext ← context (C.encrypt pk seed shareBytes) "encrypt share"
  pure { publicKeys := s.publicKeys, ownPublicKey := s.ownPublicKey,
         encryptedShare := C.hexEncode ciphertext }

end StoredLocalShare

/-- The share, opened with the own key. -/
def EncryptedStoredLocalShare.decrypt (s : EncryptedStoredLocalShare) (sk : C.SecretKey) :
    Except String (StoredLocalShare C) := do
  let ciphertext ← context (C.hexDecode s.encryptedShare) "decode share"
  let plaintext ← context (C.decrypt sk ciphertext) "decrypt share"
  let share ← context (C.localKey.read plaintext) "deserialize local key"
  pure { publicKeys := s.publicKeys, ownPublicKey := s.ownPublicKey, share }

/-- The key a share is stored under: its public key in hexadecimal. -/
def sumPk (share : C.LocalKey) : String := C.hexEncode (C.publicKeyBytes share)

/-- `save`, under the public key of the share. -/
def saveShare (db : Tree C) (amb : Ambient) (s : StoredLocalShare C) :
    Except String (Tree C) := do
  let encrypted ← withContext (s.encrypt amb.seed) "encrypt share"
  let out ← context (C.encryptedStoredLocalShare.write encrypted) "serialize local share"
  db.compareAndSwap amb (sumPk s.share) out

/-- `retrieve` -/
def retrieveShare (db : Tree C) (sk : C.SecretKey) (amb : Ambient) (publicKey : String) :
    Except String (StoredLocalShare C) := do
  let stored ← db.get amb publicKey "Retrieving local share."
  let encrypted ← context (C.encryptedStoredLocalShare.read stored) "Decode local share."
  withContext (encrypted.decrypt sk) "decrypt stored share"

end MpcServer

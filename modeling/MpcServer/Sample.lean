import Mathlib.Data.List.Forall2
import MpcServer.Lib.Hex
import MpcServer.Actors.Node

/-!
# A world to run the server in

Concrete crates, small enough for a run to be computed: four key holders, a
checksum for a hash, ciphertexts that name their receiver, state machines that
count rounds. The texts are the ones serde writes; a scenario lists the
envelopes and the protocol messages that occur in it, and only those are read.
-/

namespace MpcServer.Sample

/-! ## Keys, signatures, encryption -/

/-- The parties of the samples; Alice's twin has a key that looks like Alice's. -/
inductive Party
  | alice
  | aliceTwin
  | bob
  | carol
  deriving DecidableEq, Repr

namespace Party

/-- The compressed key. The keys of the twins are those of opposite secrets:
one point above, one below the axis. -/
def keyText : Party → String
  | alice => "0373ee5cd601a19cd9bb95fe7be8b1566b73c51d3e7e375359c129b1d77bb4b3e6"
  | aliceTwin => "0273ee5cd601a19cd9bb95fe7be8b1566b73c51d3e7e375359c129b1d77bb4b3e6"
  | bob => "03c20e0c088bb20027a77b1d23ad75058df5349c7a2bfafff7516c44c6f69aa66d"
  | carol => "03d0639e479fa1ca8ee13fd966c216e662408ff00349068bdc9c6966c4ea10fe3e"

/-- Everybody. -/
def all : List Party := [alice, aliceTwin, bob, carol]

/-- The x-coordinate. -/
def point : Party → List UInt8
  | alice | aliceTwin =>
      [115, 238, 92, 214, 1, 161, 156, 217, 187, 149, 254, 123, 232, 177, 86, 107,
      115, 197, 29, 62, 126, 55, 83, 89, 193, 41, 177, 215, 123, 180, 179, 230]
  | bob =>
      [194, 14, 12, 8, 139, 178, 0, 39, 167, 123, 29, 35, 173, 117, 5, 141,
      245, 52, 156, 122, 43, 250, 255, 247, 81, 108, 68, 198, 246, 154, 166, 109]
  | carol =>
      [208, 99, 158, 71, 159, 161, 202, 142, 225, 63, 217, 102, 194, 22, 230, 98,
      64, 143, 240, 3, 73, 6, 139, 220, 156, 105, 102, 196, 234, 16, 254, 62]

/-- The first byte of a compressed key. -/
def parity : Party → UInt8
  | aliceTwin => 2
  | _ => 3

/-- The compressed key. -/
def keyBytes (p : Party) : ByteArray := ⟨(p.parity :: p.point).toArray⟩

/-- A byte for each party. -/
def code : Party → UInt8
  | alice => 1
  | aliceTwin => 2
  | bob => 3
  | carol => 4

/-- The party of a byte. -/
def ofCode (b : UInt8) : Option Party := all.find? (·.code = b)

end Party

/-- A signature names its signer and what was signed. -/
structure Signature where
  signer : Party
  digest : List UInt8
  deriving DecidableEq, Repr

namespace Party

theorem encode_keyBytes (p : Party) : Hex.encode p.keyBytes = p.keyText := by
  cases p <;> decide +kernel

theorem byteSlice_keyText (p : Party) : ∃ piece,
    Rust.byteSlice p.keyText 2 10 = .ok piece ∧ roomSeparator ∉ piece.toList := by
  cases p <;> exact ⟨_, rfl, by decide⟩

end Party

/-- A signature as bytes. -/
def serializeSignature (sig : Signature) : ByteArray :=
  ⟨(sig.signer.code :: sig.digest).toArray⟩

/-- The signature in the bytes. -/
def parseSignature (bytes : ByteArray) : Option Signature :=
  match bytes.data.toList with
  | [] => none
  | c :: digest => (Party.ofCode c).map fun signer => { signer, digest }

theorem parseSignature_serializeSignature (sig : Signature) :
    parseSignature (serializeSignature sig) = some sig := by
  show (Party.ofCode sig.signer.code).map _ = _
  cases h : sig.signer <;> cases sig <;> cases h <;> rfl

/-- A ciphertext names its receiver. -/
def encrypt (pk : Party) (seed : Nat) (bytes : ByteArray) : Option ByteArray :=
  some ⟨(pk.code :: UInt8.ofNat seed :: bytes.data.toList).toArray⟩

/-- Only the receiver can open it. -/
def decrypt (sk : Party) (bytes : ByteArray) : Option ByteArray :=
  match bytes.data.toList with
  | c :: _ :: plain => if c = sk.code then some ⟨plain.toArray⟩ else none
  | _ => none

/-- A digest that depends on every byte. -/
def checksum (bytes : List UInt8) : List UInt8 :=
  let sum := (bytes.map UInt8.toNat).sum
  [UInt8.ofNat (sum / 256), UInt8.ofNat sum]

/-- The curve, with the parties for keys. -/
def secp256k1 : Secp256k1 where
  SecretKey := Party
  PublicKey := Party
  Signature := Signature
  Digest := List UInt8
  publicKeyOf := id
  parsePublicKey bytes := Party.all.find? fun p => p.keyBytes.data = bytes.data
  serializeCompressed := Party.keyBytes
  parseSignature := parseSignature
  serializeSignature := serializeSignature
  sha256 bytes := checksum bytes.data.toList
  sign digest sk := { signer := sk, digest }
  verify digest sig pk := decide (sig = { signer := pk, digest })
  encrypt := encrypt
  decrypt := decrypt

/-! ## The state machines

One message from every other party a round. A message of a round that is over
is out of order, a second one from a party overwrites nothing. -/

/-- A protocol in which every round is one broadcast of each party. -/
structure Rounds where
  i : UInt16
  t : UInt16
  n : UInt16
  last : UInt16
  round : UInt16
  inbox : List (UInt16 × UInt16)
  queue : List (Msg UInt16)
  picked : Bool

namespace Rounds

/-- A party before its first round. -/
def new (i t n last : UInt16) : Rounds :=
  { i, t, n, last, round := 0, inbox := [], queue := [], picked := false }

/-- The messages of the round are all there. -/
def full (k : Rounds) : Bool :=
  (k.inbox.filter (·.1 = k.round)).length + 1 = k.n.toNat

/-- A message of an earlier round is out of order. -/
def handleIncoming (k : Rounds) (m : Msg UInt16) : Except StageError Unit × Rounds :=
  if m.body < k.round then (.error (.receivedOutOfOrderMessage k.round m.body), k)
  else if (m.body, m.sender) ∈ k.inbox then (.error (.other "MsgOverwritten"), k)
  else (.ok (), { k with inbox := k.inbox ++ [(m.body, m.sender)] })

/-- On to the next round, with its broadcast. -/
def proceed (k : Rounds) : Except StageError Unit × Rounds :=
  (.ok (), { k with
    round := k.round + 1
    queue := k.queue ++
      if k.round + 1 ≤ k.last then
        [{ sender := k.i, receiver := none, body := k.round + 1 }] else [] })

/-- The output can be picked once. -/
def pickOutput {ο : Type} (output : Rounds → ο) (k : Rounds) :
    Option (Except StageError ο) × Rounds :=
  if k.picked then (some (.error (.other "DoublePickOutput")), k)
  else if k.last < k.round then (some (.ok (output k)), { k with picked := true })
  else (none, k)

/-- The protocol as a state machine. -/
abbrev machine {ο : Type} (output : Rounds → ο) : StateMachine Rounds UInt16 StageError ο where
  handleIncoming := handleIncoming
  messageQueue := queue
  drainQueue k := { k with queue := [] }
  wantsToProceed k := k.round = 0 || (decide (k.round ≤ k.last) && k.full)
  proceed := proceed
  roundTimeout _ := none
  currentRound := round
  isFinished k := decide (k.last < k.round) && !k.picked
  pickOutput := pickOutput output

end Rounds

/-- A share: the threshold, the number of parties, and which share it is. -/
structure LocalKey where
  t : UInt8
  n : UInt8
  tag : UInt8
  deriving DecidableEq, Repr

/-- A part of a signature, good or not. -/
structure PartialSignature where
  signer : UInt16
  good : Bool
  deriving DecidableEq, Repr

/-- What the offline stage comes to. -/
structure CompletedOfflineStage where
  i : UInt16
  n : UInt16
  deriving DecidableEq, Repr

/-- A signing that waits for the parts of the others. -/
structure SignManual where
  message : Nat
  others : List UInt16
  deriving DecidableEq, Repr

/-- The parties `1..n` but `i`. -/
def othersOf (i n : UInt16) : List UInt16 :=
  ((List.range n.toNat).map fun k => UInt16.ofNat (k + 1)).filter (· ≠ i)

/-- Good parts of all the others complete it. -/
def complete (state : SignManual) (sigs : List PartialSignature) : Option Nat :=
  if sigs.all (·.good) && (sigs.map (·.signer)).isPerm state.others then some state.message
  else none

/-- A good part of this party. -/
def goodFrom (j : UInt16) (sig : PartialSignature) : Prop := sig = { signer := j, good := true }

theorem complete_isSome_iff (state : SignManual) (sigs : List PartialSignature) :
    (complete state sigs).isSome ↔
      ∃ js, js.Perm state.others ∧ List.Forall₂ goodFrom js sigs := by
  unfold complete
  constructor
  · intro h
    split at h
    · rename_i hc
      simp only [Bool.and_eq_true, List.all_eq_true, List.isPerm_iff] at hc
      refine ⟨sigs.map (·.signer), hc.2, List.forall₂_map_left_iff.mpr ?_⟩
      refine List.forall₂_same.mpr fun sig hsig => ?_
      have hgood := hc.1 sig hsig
      cases sig
      cases hgood
      rfl
    · cases h
  · rintro ⟨js, hjs, hall⟩
    have hsigs : sigs = js.map fun j => { signer := j, good := true } := by
      clear hjs
      induction hall with
      | nil => rfl
      | cons hj _ ih => rw [List.map_cons, ← ih, hj]
    subst hsigs
    rw [if_pos]
    · rfl
    · simpa [List.isPerm_iff, List.map_map, Function.comp_def] using hjs

/-! ## Texts -/

/-- A string of JSON. -/
def quote (s : String) : String :=
  String.ofList ('"' :: (s.toList.flatMap fun c =>
    if c = '"' ∨ c = '\\' then ['\\', c] else [c]) ++ ['"'])

/-- An envelope as JSON. -/
def wireText (w : WireMessage) : String :=
  "\x7b\"room\":" ++ quote w.room ++ ",\"payload\":" ++ quote w.payload ++
    ",\"sender_public_key\":" ++ quote w.senderPublicKey ++
    ",\"signature\":" ++ quote w.signature ++ "\x7d"

/-- A receiver as JSON. -/
def receiverText : Option UInt16 → String
  | some j => toString j.toNat
  | none => "null"

/-- A protocol message as JSON. -/
def messageText (m : GenericProtocolMessage String) : String :=
  "\x7b\"sender\":" ++ toString m.sender.toNat ++ ",\"receiver\":" ++ receiverText m.receiver ++
    ",\"body\":" ++ m.body ++ "\x7d"

/-- The body of a message of the keygen. -/
def keygenBodyText (round : UInt16) : String :=
  "\x7b\"Round" ++ toString round.toNat ++ "\":[]\x7d"

/-- The body of a message of the offline stage. -/
def offlineBodyText (round : UInt16) : String :=
  "\x7b\"M" ++ toString round.toNat ++ "\":[]\x7d"

/-- The body of a message of the signing. -/
def partialSigText (sig : PartialSignature) : String :=
  "\x7b\"curve\":\"secp256k1\",\"scalar\":[" ++ (if sig.good then "" else "0,") ++
    toString sig.signer.toNat ++ "]\x7d"

/-- The parts there are in the samples. -/
def partialSigs : List PartialSignature :=
  [1, 2, 3].flatMap fun j => [{ signer := j, good := true }, { signer := j, good := false }]

/-- The wrapper of a ciphertext as JSON. -/
def encryptedText (e : Encrypted) : String :=
  "\x7b\"encrypted\":\"" ++ e.encrypted ++ "\"\x7d"

/-- `bigint::from_hex`. -/
def bigIntFromHex (s : String) : Option Nat :=
  if s = "" then none
  else s.toList.foldl (fun acc c => do pure (16 * (← acc) + (← Hex.nibble c))) (some 0)

/-- Text for the values of a list. -/
def codec {α : Type} [DecidableEq α] (text : α → String) (known : List α) : Serde α String where
  write a := if a ∈ known then some (text a) else none
  read s := known.find? (text · = s)

/-- What a sample is about: its rounds, and the texts that are read back. -/
structure Scenario where
  overflowChecks : Bool := false
  keygenRounds : UInt16 := 2
  offlineRounds : UInt16 := 1
  wires : List WireMessage := []
  messages : List (GenericProtocolMessage String) := []

/-- Reads back the messages of the scenario. -/
def genericCodec (sc : Scenario) : Serde (GenericProtocolMessage String) String :=
  codec messageText sc.messages

/-- A protocol message is a generic one with a body of the right kind. -/
def typedCodec {β : Type} (sc : Scenario) (text : β → String) (bodies : List β) :
    Serde (Msg β) String where
  write m := (genericCodec sc).write
    { sender := m.sender, receiver := m.receiver, body := text m.body }
  read s := (genericCodec sc).read s |>.bind fun g =>
    (bodies.find? (text · = g.body)).map fun body =>
      { sender := g.sender, receiver := g.receiver, body }

/-- The same for the keygen. -/
def keygenCodec (sc : Scenario) : Serde (Msg UInt16) String :=
  typedCodec sc keygenBodyText [1, 2, 3, 4]

/-- The same for the offline stage. -/
def offlineCodec (sc : Scenario) : Serde (Msg UInt16) String :=
  typedCodec sc offlineBodyText [1, 2, 3, 4, 5, 6]

/-- The same for the signing. -/
def signCodec (sc : Scenario) : Serde (Msg PartialSignature) String :=
  typedCodec sc partialSigText partialSigs

/-- What a tree holds. -/
inductive Blob
  | group (g : PublicKeyGroup)
  | share (s : EncryptedStoredLocalShare)
  | result (r : CheckResultResponse)

/-- The alphabet of base64. -/
def base64Chars : List Char :=
  "ABCDEFGHIJKLMNOPQRSTUVWXYZabcdefghijklmnopqrstuvwxyz0123456789+/".toList

/-- The digit of a number below 64. -/
def base64Digit (n : Nat) : Char := base64Chars.getD (n % 64) '='

/-- The digits of some bytes, with padding. -/
def base64Encode : List UInt8 → List Char
  | [] => []
  | [a] =>
      let x := a.toNat * 16
      [base64Digit (x / 64), base64Digit x, '=', '=']
  | [a, b] =>
      let x := (a.toNat * 256 + b.toNat) * 4
      [base64Digit (x / 4096), base64Digit (x / 64), base64Digit x, '=']
  | a :: b :: c :: rest =>
      let x := (a.toNat * 256 + b.toNat) * 256 + c.toNat
      base64Digit (x / 262144) :: base64Digit (x / 4096) :: base64Digit (x / 64) ::
        base64Digit x :: base64Encode rest

/-- The number of a digit. -/
def base64Value (c : Char) : Option Nat := base64Chars.findIdx? (· = c)

/-- The bytes of some digits. -/
def base64Decode : List Char → Option (List UInt8)
  | [] => some []
  | [a, b, '=', '='] => do
      let x := (← base64Value a) * 64 + (← base64Value b)
      pure [UInt8.ofNat (x / 16)]
  | [a, b, c, '='] => do
      let x := ((← base64Value a) * 64 + (← base64Value b)) * 64 + (← base64Value c)
      pure [UInt8.ofNat (x / 1024), UInt8.ofNat (x / 4)]
  | a :: b :: c :: d :: rest => do
      let x := (((← base64Value a) * 64 + (← base64Value b)) * 64 + (← base64Value c)) * 64 +
        (← base64Value d)
      pure (UInt8.ofNat (x / 65536) :: UInt8.ofNat (x / 256) :: UInt8.ofNat x ::
        (← base64Decode rest))
  | _ => none

/-! ## The crates of a scenario -/

/-- The encodings. -/
def encodings : Encodings where
  hexEncode := Hex.encode
  hexDecode := Hex.decode
  base64Encode bytes := String.ofList (base64Encode bytes.data.toList)
  base64Decode s := (base64Decode s.toList).map fun bs => ⟨bs.toArray⟩
  BigInt := Nat
  bigIntFromHex := bigIntFromHex

/-- The checks `Keygen::new` makes. -/
def keygenNew (last i t n : UInt16) : Option Rounds :=
  if n < 2 ∨ t = 0 ∨ n ≤ t ∨ i = 0 ∨ n < i then none else some (Rounds.new i t n last)

/-- The checks `OfflineStage::new` makes. -/
def offlineStageNew (last i : UInt16) (sL : List UInt16) (key : LocalKey) : Option Rounds :=
  let n := UInt16.ofNat sL.length
  if n < 2 ∨ i = 0 ∨ n < i ∨ sL.any (fun j => j = 0 ∨ key.n.toUInt16 < j) ∨ ¬ sL.Nodup then none
  else some (Rounds.new i key.t.toUInt16 n last)

/-- The protocols, each with its number of rounds. -/
def multiPartyEcdsa (sc : Scenario) : MultiPartyEcdsa where
  toEncodings := encodings
  KeygenProtocolMessage := UInt16
  OfflineProtocolMessage := UInt16
  PartialSignature := PartialSignature
  Keygen := Rounds
  OfflineStage := Rounds
  LocalKey := LocalKey
  CompletedOfflineStage := CompletedOfflineStage
  SignManual := SignManual
  SignatureRecid := Nat
  keygenNew := keygenNew sc.keygenRounds
  offlineStageNew := offlineStageNew sc.offlineRounds
  keygenMachine := Rounds.machine fun k => { t := k.t.toUInt8, n := k.n.toUInt8, tag := 7 }
  offlineMachine := Rounds.machine fun k => { i := k.i, n := k.n }
  signManualNew message stage :=
    some ({ message, others := othersOf stage.i stage.n }, { signer := stage.i, good := true })
  complete := complete
  threshold key := key.t.toUInt16
  publicKeyBytes key := ⟨(2 :: List.replicate 32 key.tag).toArray⟩
  signatureBytes m := (⟨#[1, UInt8.ofNat m]⟩, ⟨#[2, UInt8.ofNat m]⟩, ⟨#[0, 0, 0, 1]⟩)

/-- The codecs of the scenario. -/
def serdeJson (sc : Scenario) : SerdeJson where
  toMultiPartyEcdsa := multiPartyEcdsa sc
  RawValue := String
  rawValueText := id
  rawValueFromString s := if s = "" then none else some s
  wireMessage := codec wireText sc.wires
  genericMessage := genericCodec sc
  encrypted :=
    { write := fun e => some (encryptedText e)
      read := fun s =>
        let e : Encrypted := ⟨String.ofList ((s.toList.drop 14).dropLast.dropLast)⟩
        if encryptedText e = s then some e else none }
  msgKG := keygenCodec sc
  msgO := offlineCodec sc
  msgS := signCodec sc
  localKey :=
    { write := fun key => some ⟨#[key.t, key.n, key.tag]⟩
      read := fun bytes => match bytes.data.toList with
        | [t, n, tag] => some { t, n, tag }
        | _ => none }
  Blob := Blob
  publicKeyGroup :=
    { write := fun g => some (.group g)
      read := fun | .group g => some g | _ => none }
  encryptedStoredLocalShare :=
    { write := fun s => some (.share s)
      read := fun | .share s => some s | _ => none }
  checkResultResponse :=
    { write := fun r => some (.result r)
      read := fun | .result r => some r | _ => none }

/-- The crates of the scenario. -/
def crates (sc : Scenario) : Crates where
  toSecp256k1 := secp256k1
  toSerdeJson := serdeJson sc
  overflowChecks := sc.overflowChecks

/-! ## Bob's server -/

/-- A context in which everything succeeds. -/
def allWell : Ambient := { now := 0, getOk := true, casOk := true, seed := 0 }

/-- The keys of the parties, as they are spelled. -/
def keyTexts (parties : List Party) : List String := parties.map Party.keyText

/-- A keygen of these parties. -/
def keygenOf (requestId : String) (parties : List Party) (threshold : UInt32) : KeygenRequest :=
  { requestId, participantPublicKeys := keyTexts parties, threshold }

/-- A tree without an entry. -/
def nothing (_ : String) : Option Blob := none

/-- The public key of every share of two parties, and Bob's share as he keeps it. -/
def jointKey : String := Hex.encode ⟨(2 :: List.replicate 32 7).toArray⟩

/-- Bob's share of the key of Alice and Bob. -/
def bobsShare : EncryptedStoredLocalShare :=
  { publicKeys := keyTexts [.alice, .bob], ownPublicKey := Party.bob.keyText
    encryptedShare := Hex.encode ⟨#[Party.bob.code, 0, 1, 2, 7]⟩ }

/-- A tree with this share. -/
def shared (key : String) : Option Blob :=
  if key = jointKey then some (.share bobsShare) else none

/-- The group of Alice and Bob as Bob keeps it. -/
def pairsGroup : PublicKeyGroup :=
  { groupId := "73ee5cd6c20e0c08", t := 1, publicKeys := keyTexts [.alice, .bob]
    ownPublicKey := Party.bob.keyText }

/-- A signing with that key. -/
def signOf (requestId : String) (parties : List Party) (hash : String) : SignRequest :=
  { requestId, participantPublicKeys := keyTexts parties, publicKey := jointKey, hash }

/-- Bob's node. -/
def bobsNode (sc : Scenario) (db : String → Option Blob) : Node (crates sc) :=
  Node.init (C := crates sc) Party.bob db

/-- An envelope of this party. -/
def envelope (p : Party) (room payload : String) : WireMessage :=
  { room, payload, senderPublicKey := p.keyText
    signature := Hex.encode (serializeSignature ⟨p, checksum payload.toUTF8.data.toList⟩) }

/-- An envelope of Alice's. -/
def fromAlice (room : String) (m : GenericProtocolMessage String) : WireMessage :=
  envelope .alice room (messageText m)

/-- The body of a point-to-point message to `p`. -/
def sealed (p : Party) (body : String) : String :=
  encryptedText ⟨String.ofList (base64Encode (p.code :: 0 :: body.toUTF8.data.toList))⟩

/-- It comes down the stream. -/
def arrives (w : WireMessage) : Event := .wire (.ok (wireText w)) allWell

/-- A keygen of one round, and Alice's message of it. -/
def keygen : Scenario where
  keygenRounds := 1
  wires := [fromAlice "k1@73ee5cd6c20e0c08"
    { sender := 1, receiver := none, body := keygenBodyText 1 }]
  messages := [{ sender := 1, receiver := none, body := keygenBodyText 1 },
    { sender := 2, receiver := none, body := keygenBodyText 1 }]

/-- A keygen of Alice and Bob, as it goes at Bob's. -/
def runKeygen : List Event :=
  [.request (.keygen (keygenOf "k1" [.alice, .bob] 1)), .mail allWell, .tickKG 0 0, .mail allWell,
    arrives (fromAlice "k1@73ee5cd6c20e0c08"
      { sender := 1, receiver := none, body := keygenBodyText 1 }), .playKG 0 0]

end MpcServer.Sample

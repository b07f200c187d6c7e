import MpcServer.Json
import MpcServer.Outgoing
import MpcServer.Parties

/-!
# One key, many spellings

A signature is verified under the key that the sender's text decodes to: hexadecimal in
either case, of any encoding of the point. What follows goes by the text. So the filter
of own messages and the lookup in the group know a sender by one spelling only, the
one that stands in the server's own key or in the group's list.
-/

namespace MpcServer

open Rust

variable {C : Crates}

/-- The envelope under another spelling of its sender. -/
def WireMessage.respell (w : WireMessage) (key : String) : WireMessage :=
  { w with senderPublicKey := key }

/-- The check of a signature goes by the key that the sender's text stands for. -/
theorem signatureHolds_iff {w : WireMessage} {pk : C.PublicKey} :
    SignatureHolds w pk ↔ C.pointOf w.senderPublicKey = some pk ∧
      ∃ sbytes sig, C.hexDecode w.signature = some sbytes ∧
        C.parseSignature sbytes = some sig ∧ C.verify (payloadDigest w.payload) sig pk = true := by
  unfold SignatureHolds Crates.pointOf
  rw [Option.bind_eq_some_iff]
  constructor
  · rintro ⟨bytes, sbytes, sig, hbytes, hpk, hsig⟩
    exact ⟨⟨bytes, hbytes, hpk⟩, sbytes, sig, hsig⟩
  · rintro ⟨⟨bytes, hbytes, hpk⟩, sbytes, sig, hsig⟩
    exact ⟨bytes, sbytes, sig, hbytes, hpk, hsig⟩

/-- Whoever respells the sender of an accepted envelope has it accepted. -/
theorem doParseSigned_respell {msg msg' key : String} {w : WireMessage}
    (h : doParseSigned C msg = .ok w) (hread : C.wireMessage.read msg' = some (w.respell key))
    (hpoint : C.pointOf key = C.pointOf w.senderPublicKey) :
    doParseSigned C msg' = .ok (w.respell key) := by
  obtain ⟨-, pk, hpk⟩ := doParseSigned_eq_ok.mp h
  obtain ⟨hsender, hsig⟩ := signatureHolds_iff.mp hpk
  exact doParseSigned_eq_ok.mpr ⟨hread, pk, signatureHolds_iff.mpr ⟨hpoint.trans hsender, hsig⟩⟩

namespace Coordinator

/-- The filter of own messages passes both or neither, and the check of an incoming
message says the same of both, whatever the store answers. -/
def TreatsAlike (c : Coordinator C) (w w' : WireMessage) : Prop :=
  takeNonOwned c.pkStr (.ok w) = takeNonOwned c.pkStr (.ok w') ∧
    ∀ amb origin origin', validSenderAndReceiver c amb ⟨w, origin⟩ =
      validSenderAndReceiver c amb ⟨w', origin'⟩

/-- Both texts are the server's own or neither is, and both stand in the list of the
room's group or neither does. -/
def SpelledAlike (c : Coordinator C) (room key key' : String) : Prop :=
  (key = c.pkStr ↔ key' = c.pkStr) ∧
    ∀ group, c.storedGroup room = some group → (key ∈ group.publicKeys ↔ key' ∈ group.publicKeys)

theorem takeNonOwned_eq_false {own : String} {w : WireMessage} :
    takeNonOwned own (.ok w) = false ↔ w.senderPublicKey = own := by
  simp [takeNonOwned]

theorem takeNonOwned_congr {own : String} {w w' : WireMessage} :
    takeNonOwned own (.ok w) = takeNonOwned own (.ok w') ↔
      (w.senderPublicKey = own ↔ w'.senderPublicKey = own) := by
  rw [← takeNonOwned_eq_false, ← takeNonOwned_eq_false]
  cases takeNonOwned own (.ok w) <;> cases takeNonOwned own (.ok w') <;> simp

/-- Of the sender the check looks at nothing but its place in the list. -/
theorem valid_respell {c : Coordinator C} {amb : Ambient} {w : WireMessage} {key : String}
    (h : ∀ group, c.storedGroup w.room = some group →
      (w.senderPublicKey ∈ group.publicKeys ↔ key ∈ group.publicKeys)) (origin origin' : Nat) :
    validSenderAndReceiver c amb ⟨w, origin⟩ =
      validSenderAndReceiver c amb ⟨w.respell key, origin'⟩ := by
  unfold validSenderAndReceiver
  dsimp only [WireMessage.respell]
  cases hid : extractGroupId w.room with
  | error e => rfl
  | ok groupId =>
      dsimp only
      cases hget : retrieveGroup c.db amb groupId with
      | error e => rfl
      | ok group =>
          have hsame := h group (storedGroup_of_retrieved hid hget).2
          rw [← group.getIndex_isSome_iff, ← group.getIndex_isSome_iff] at hsame
          dsimp only
          cases hfirst : group.getIndex w.senderPublicKey with
          | none =>
              cases hsecond : group.getIndex key with
              | none => rfl
              | some j => simp [hfirst, hsecond] at hsame
          | some i =>
              cases hsecond : group.getIndex key with
              | none => simp [hfirst, hsecond] at hsame
              | some j => rfl

/-- **One key, one treatment.** Let an envelope be accepted. Under any other spelling of
its sender's key it is accepted as well; the server treats the two alike exactly if it
has both texts for its own or neither, and the group it keeps for the room lists both or
neither. An envelope of the server's own key is filtered out exactly if the key is
spelled as the server spells it. -/
theorem treatsAlike_iff {msg msg' key : String} {w : WireMessage}
    (h : doParseSigned C msg = .ok w) (hread : C.wireMessage.read msg' = some (w.respell key))
    (hpoint : C.pointOf key = C.pointOf w.senderPublicKey) (c : Coordinator C) :
    doParseSigned C msg' = .ok (w.respell key) ∧
      (c.TreatsAlike w (w.respell key) ↔ c.SpelledAlike w.room w.senderPublicKey key) ∧
      (c.Owns w.senderPublicKey →
        (takeNonOwned c.pkStr (.ok w) = false ↔ w.senderPublicKey = c.pkStr)) := by
  refine ⟨doParseSigned_respell h hread hpoint, ⟨fun halike => ?_, fun hspelled => ?_⟩,
    fun _ => takeNonOwned_eq_false⟩
  · obtain ⟨hfilter, hcheck⟩ := halike
    refine ⟨takeNonOwned_congr.mp hfilter, fun group hgroup => not_iff_not.mp ?_⟩
    -- a store that answers tells a stranger from a member
    let amb : Ambient := { now := 0, getOk := true, casOk := true, seed := 0 }
    have hstranger : ∀ w' : WireMessage, w'.room = w.room →
        (validSenderAndReceiver c amb ⟨w', 0⟩ = .error (.err .wrongPublicKey) ↔
          w'.senderPublicKey ∉ group.publicKeys) :=
      fun w' hroom => wrongPublicKey_iff rfl (hroom ▸ hgroup)
    rw [← hstranger w rfl, hcheck amb 0 0]
    exact hstranger (w.respell key) rfl
  · exact ⟨takeNonOwned_congr.mpr hspelled.1, fun amb => valid_respell hspelled.2⟩

end Coordinator

namespace Sample

/-- The key in capitals. -/
def shouted (p : Party) : String := String.ofList (p.keyText.toList.map Char.toUpper)

/-- A message of this party. -/
def sentBy (p : Party) : WireMessage :=
  envelope p "k1@73ee5cd6c20e0c08"
    (messageText { sender := 1, receiver := none, body := keygenBodyText 1 })

/-- A message of the first round, under either spelling of its sender. -/
def overheard (p : Party) : Scenario where
  wires := [sentBy p, (sentBy p).respell (shouted p)]
  messages := [{ sender := 1, receiver := none, body := keygenBodyText 1 }]

theorem hexDecode_encode (sc : Scenario) (bytes : ByteArray) :
    (crates sc).hexDecode (Hex.encode bytes) = some bytes := Hex.decode_encode bytes

theorem hexDecode_toUpper (sc : Scenario) (text : String) :
    (crates sc).hexDecode (String.ofList (text.toList.map Char.toUpper)) =
      (crates sc).hexDecode text := Hex.decode_toUpper text

/-- What a party signs is accepted wherever it is read back. -/
theorem doParseSigned_envelope {sc : Scenario} {p : Party} {room payload text : String}
    (hread : (crates sc).wireMessage.read text = some (envelope p room payload)) :
    doParseSigned (crates sc) text = .ok (envelope p room payload) := by
  have hkey : (crates sc).hexDecode p.keyText = some p.keyBytes := by
    rw [← p.encode_keyBytes, hexDecode_encode]
  have hsignature := hexDecode_encode sc
    (serializeSignature ⟨p, checksum payload.toUTF8.data.toList⟩)
  have hverify : (crates sc).verify (payloadDigest (C := crates sc) payload)
      ⟨p, checksum payload.toUTF8.data.toList⟩ p = true := decide_eq_true rfl
  refine doParseSigned_eq_ok.mpr ⟨hread, p, p.keyBytes, _, _, hkey, parsePublicKey_keyBytes p,
    hsignature, parseSignature_serializeSignature _, hverify⟩

theorem codec_read_first {α : Type} [DecidableEq α] (text : α → String) (x : α) (known : List α) :
    (codec text (x :: known)).read (text x) = some x := by
  simp [codec]

theorem codec_read_second {α : Type} [DecidableEq α] {text : α → String} {x y : α}
    (h : text x ≠ text y) : (codec text [x, y]).read (text y) = some y := by
  simp [codec, h]

theorem read_sentBy (p : Party) :
    (crates (overheard p)).wireMessage.read (wireText (sentBy p)) = some (sentBy p) :=
  codec_read_first wireText (sentBy p) _

theorem shouted_ne (p : Party) : p.keyText ≠ shouted p := by
  intro h
  have hlist : p.keyText.toList = p.keyText.toList.map Char.toUpper := by
    simpa [shouted] using congrArg String.toList h
  revert hlist
  cases p <;> decide

theorem read_respelled (p : Party) :
    (crates (overheard p)).wireMessage.read (wireText ((sentBy p).respell (shouted p))) =
      some ((sentBy p).respell (shouted p)) := by
  refine codec_read_second fun h => shouted_ne p ?_
  have hread := (readWire_text (sentBy p)).symm.trans
    ((congrArg readWire h).trans (readWire_text _))
  exact congrArg WireMessage.senderPublicKey (Option.some.inj hread)

theorem pointOf_shouted (sc : Scenario) (p : Party) :
    (crates sc).pointOf (shouted p) = (crates sc).pointOf p.keyText := by
  rw [Crates.pointOf, shouted, hexDecode_toUpper, Crates.pointOf]

theorem accepted_sentBy (p : Party) :
    doParseSigned (crates (overheard p)) (wireText (sentBy p)) = .ok (sentBy p) :=
  doParseSigned_envelope (read_sentBy p)

/-- Bob's server, which keeps the group of Alice and Bob and overhears a message. -/
def bobAmongTwo (p : Party) : Coordinator (crates (overheard p)) :=
  (bobsNode (overheard p) grouped).coordinator

theorem pkStr_bobAmongTwo (p : Party) : (bobAmongTwo p).pkStr = Party.bob.keyText :=
  Party.bob.encode_keyBytes

/-- Carol is a stranger to the two, however she is spelled. -/
theorem treatsAlike_carol :
    doParseSigned (crates (overheard .carol))
          (wireText ((sentBy .carol).respell (shouted .carol))) =
        .ok ((sentBy .carol).respell (shouted .carol)) ∧
      (bobAmongTwo .carol).TreatsAlike (sentBy .carol)
        ((sentBy .carol).respell (shouted .carol)) := by
  obtain ⟨hrespelled, halike, -⟩ := Coordinator.treatsAlike_iff (accepted_sentBy .carol)
    (read_respelled _) (pointOf_shouted (overheard .carol) .carol) (bobAmongTwo .carol)
  refine ⟨hrespelled, halike.mpr ⟨?_, fun group hgroup => ?_⟩⟩
  · rw [pkStr_bobAmongTwo]
    decide
  · have hstored : (bobAmongTwo .carol).storedGroup (sentBy .carol).room = some pairsGroup := by
      decide
    cases hstored.symm.trans hgroup
    decide

/-- Bob's own message, echoed with its key in capitals, passes the filter, and its sender
is none of the group. -/
theorem treatsApart_bob :
    doParseSigned (crates (overheard .bob)) (wireText (sentBy .bob)) = .ok (sentBy .bob) ∧
    doParseSigned (crates (overheard .bob)) (wireText ((sentBy .bob).respell (shouted .bob))) =
      .ok ((sentBy .bob).respell (shouted .bob)) ∧
    (bobAmongTwo .bob).Owns (sentBy .bob).senderPublicKey ∧
    (bobAmongTwo .bob).Owns (shouted .bob) ∧
    takeNonOwned (bobAmongTwo .bob).pkStr (.ok (sentBy .bob)) = false ∧
    takeNonOwned (bobAmongTwo .bob).pkStr (.ok ((sentBy .bob).respell (shouted .bob))) = true ∧
    Coordinator.validSenderAndReceiver (bobAmongTwo .bob) allWell ⟨sentBy .bob, 0⟩ = .ok () ∧
    Coordinator.validSenderAndReceiver (bobAmongTwo .bob) allWell
      ⟨(sentBy .bob).respell (shouted .bob), 0⟩ = .error (.err .wrongPublicKey) := by
  have hown : (bobAmongTwo .bob).Owns Party.bob.keyText := by
    rw [← Party.bob.encode_keyBytes]
    exact (keyLaws (overheard .bob)).pointOf_ownKey Party.bob
  have hloud : (bobAmongTwo .bob).Owns (shouted .bob) := by
    rw [Coordinator.Owns, pointOf_shouted]
    exact hown
  have hrespelled := doParseSigned_respell (accepted_sentBy .bob) (read_respelled _)
    (pointOf_shouted (overheard .bob) .bob)
  refine ⟨accepted_sentBy .bob, hrespelled, hown, hloud, ?_⟩
  decide

end Sample

end MpcServer

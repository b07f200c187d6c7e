import MpcServer.Json
import MpcServer.Outgoing

/-!
# From one server to another

Two members of a group that store it alike: what one of them sends in the
group's room reaches the other's runners as it was written, through encryption,
signature and envelope and back. A message for one position is let through
there and dropped at the others.
-/

namespace MpcServer

open Rust Rust.Method Machine

variable {C : Crates}

variable (C) in
/-- What the crates promise each other: encodings and JSON read back what they
wrote, `verify` accepts what `sign` made, and a holder of a secret key decrypts
what was encrypted to it. A JSON text is a raw value and keeps its spelling;
the generic reader finds a typed message's sender and receiver and writes the
message as it was. -/
structure WireLaws : Prop where
  hexDecode : ∀ bytes, C.hexDecode (C.hexEncode bytes) = some bytes
  base64Decode : ∀ bytes, C.base64Decode (C.base64Encode bytes) = some bytes
  parsePublicKey : ∀ pk, C.parsePublicKey (C.serializeCompressed pk) = some pk
  parseSignature : ∀ sig, C.parseSignature (C.serializeSignature sig) = some sig
  verify : ∀ digest sk, C.verify digest (C.sign digest sk) (C.publicKeyOf sk) = true
  decrypt : ∀ sk seed bytes, ∃ ciphertext,
    C.encrypt (C.publicKeyOf sk) seed bytes = some ciphertext ∧
      C.decrypt sk ciphertext = some bytes
  wireMessage : C.wireMessage.RoundTrips
  genericMessage : C.genericMessage.RoundTrips
  encrypted : C.encrypted.RoundTrips
  rawValue : ∀ body, C.rawValueFromString (C.rawValueText body) = some body
  rawEncrypted : ∀ e text, C.encrypted.write e = some text →
    ∃ body, C.rawValueFromString text = some body ∧ C.rawValueText body = text
  msgKG : ∀ m text, C.msgKG.write m = some text → ∃ g, C.genericMessage.read text = some g ∧
    g.receiver = m.receiver ∧ C.genericMessage.write g = some text
  msgO : ∀ m text, C.msgO.write m = some text → ∃ g, C.genericMessage.read text = some g ∧
    g.receiver = m.receiver ∧ C.genericMessage.write g = some text
  msgS : ∀ m text, C.msgS.write m = some text → ∃ g, C.genericMessage.read text = some g ∧
    g.receiver = m.receiver ∧ C.genericMessage.write g = some text

variable (C) in
/-- A text that a keygen player, an offline player or a signer serialises. -/
inductive Serialised (receiver : Option UInt16) (text : String) : Prop
  | keygen {m} : m.receiver = receiver → C.msgKG.write m = some text → Serialised receiver text
  | offline {m} : m.receiver = receiver → C.msgO.write m = some text → Serialised receiver text
  | sign {m} : m.receiver = receiver → C.msgS.write m = some text → Serialised receiver text

theorem Serialised.generic (laws : WireLaws C) {receiver : Option UInt16} {text : String}
    (h : Serialised C receiver text) : ∃ g, C.genericMessage.read text = some g ∧
      g.receiver = receiver ∧ C.genericMessage.write g = some text := by
  cases h with
  | keygen hreceiver hm => exact hreceiver ▸ laws.msgKG _ _ hm
  | offline hreceiver hm => exact hreceiver ▸ laws.msgO _ _ hm
  | sign hreceiver hm => exact hreceiver ▸ laws.msgS _ _ hm

/-- The group id is a piece of the room. -/
theorem infix_of_extractGroupId {room gid : String} (h : extractGroupId room = .ok gid) :
    gid.toList <:+: room.toList := by
  unfold extractGroupId at h
  split at h
  · rename_i first groupId rest hsplit
    cases h
    exact infix_of_mem_splitChar (hsplit ▸ List.mem_cons_of_mem _ List.mem_cons_self)
  · cases h

namespace Coordinator

/-- The server is one of the keys, and its store, which answers, holds these
keys for the room, in a group that `new` made of them. -/
structure Member (c : Coordinator C) (amb : Ambient) (room : String) (keys : List String) :
    Prop where
  own : c.pkStr = C.ownKey c.sk
  listed : c.pkStr ∈ keys
  answers : amb.getOk = true
  stored : ∃ group t, PublicKeyGroup.new keys t c.pkStr = .ok group ∧
    extractGroupId room = .ok group.groupId ∧ c.storedGroup room = some group

/-- A message of the server's own, encrypted, signed and written as JSON. -/
def Posts (c : Coordinator C) (amb : Ambient) (msg : CoreMessage) (w : WireMessage)
    (wire : String) : Prop :=
  ∃ sent, maybeEncrypt c.db amb msg = .ok sent ∧ signEnvelope c.sk c.pkStr sent = .ok w ∧
    C.wireMessage.write w = some wire

/-- `handle_incoming` goes on to `handle_incoming_unsafe` with `msg'`. -/
def Reaches (c : Coordinator C) (ctx : Ctx) (msg msg' : Arrival) : Prop :=
  Passes c ctx.toAmbient msg msg' ∧
    (handleIncoming msg ctx).run c = (handleIncomingUnsafe msg' ctx.now 0).run c

/-- `handle_incoming` finds that the message is for another party, and is done. -/
def DropsAsNotForMe (c : Coordinator C) (ctx : Ctx) (msg : Arrival) : Prop :=
  validSenderAndReceiver c ctx.toAmbient msg = .error (.err .notForMe) ∧
    (handleIncoming msg ctx).run c = (.ok (), c, [])

section
variable {c : Coordinator C} {amb : Ambient} {ctx : Ctx} {room : String} {keys : List String}

/-! ## What a member accepts -/

/-- The filter before the check lets a member's rooms through. -/
theorem Member.piece (h : c.Member amb room keys) :
    ∃ piece, byteSlice c.pkStr 2 10 = .ok piece ∧ containsStr room piece = true := by
  obtain ⟨group, t, hnew, hid, -⟩ := h.stored
  obtain ⟨gid, hgid, rfl⟩ := PublicKeyGroup.new_eq_ok.mp hnew
  obtain ⟨piece, hpiece, hpart⟩ := PublicKeyGroup.infix_groupIdOf hgid h.listed
  exact ⟨piece, hpiece, decide_eq_true (hpart.trans (infix_of_extractGroupId hid))⟩

/-- The check, where the room's group is known and the payload readable. -/
theorem Member.valid (h : c.Member amb room keys) {msg : Arrival} (hroom : msg.room = room)
    (hsender : msg.senderPublicKey ∈ keys) {g : GenericProtocolMessage C.RawValue}
    (hg : C.genericMessage.read msg.payload = some g) (hnodup : keys.Nodup) {k : Nat}
    (hk : keys[k]? = some c.pkStr) :
    validSenderAndReceiver c amb msg =
      if g.receiver.all (UInt16.ofNat (k + 1) = ·) then .ok ()
      else .error (.err .notForMe) := by
  obtain ⟨group, t, hnew, -, hgroup⟩ := h.stored
  obtain ⟨gid, hgid, rfl⟩ := PublicKeyGroup.new_eq_ok.mp hnew
  obtain ⟨groupId, hid, hretrieve⟩ := retrieveGroup_of_stored h.answers (hroom ▸ hgroup)
  have hindex := (PublicKeyGroup.getIndex_isSome_iff ⟨gid, t, keys, c.pkStr⟩ _).mpr hsender
  obtain ⟨i, hi⟩ := Option.isSome_iff_exists.mp hindex
  have hown : PublicKeyGroup.getI ⟨gid, t, keys, c.pkStr⟩ = .ok (UInt16.ofNat (k + 1)) := by
    have hposition : PublicKeyGroup.getIndex ⟨gid, t, keys, c.pkStr⟩ c.pkStr = some (k + 1) :=
      PublicKeyGroup.getIndex_of_nodup hnodup hk
    simp [PublicKeyGroup.getI, hposition]
  simp only [validSenderAndReceiver, hid, hretrieve, hi, hg]
  cases hreceiver : g.receiver with
  | none => simp
  | some j =>
      simp only [hown, Option.all_some, decide_eq_true_eq, ne_eq, ite_not]
      by_cases hj : j = UInt16.ofNat (k + 1)
      · rw [if_pos hj, if_pos hj.symm]
      · rw [if_neg hj, if_neg (Ne.symm hj)]

/-- What passes the check on a member goes on to its runners. -/
theorem Member.reaches (h : c.Member ctx.toAmbient room keys) {msg msg' : Arrival}
    (hroom : msg.room = room) (hpasses : Passes c ctx.toAmbient msg msg') :
    c.Reaches ctx msg msg' := by
  obtain ⟨piece, hpiece, hcontains⟩ := h.piece
  refine ⟨hpasses, ?_⟩
  unfold handleIncoming
  simp only [run_bind, run_self, hpiece, run_orPanic_ok, hroom, hcontains, Bool.not_true,
    Bool.false_eq_true, if_false, attempt_lift_run, hpasses.1, hpasses.2, List.nil_append]

/-- What is not for a member is dropped as that. -/
theorem Member.drops (h : c.Member ctx.toAmbient room keys) {msg : Arrival}
    (hroom : msg.room = room)
    (hvalid : validSenderAndReceiver c ctx.toAmbient msg = .error (.err .notForMe)) :
    c.DropsAsNotForMe ctx msg := by
  obtain ⟨piece, hpiece, hcontains⟩ := h.piece
  refine ⟨hvalid, ?_⟩
  unfold handleIncoming
  simp only [run_bind, run_self, hpiece, run_orPanic_ok, hroom, hcontains, Bool.not_true,
    Bool.false_eq_true, if_false, attempt_lift_run, hvalid, run_pure, List.nil_append]

/-- A member drops a message for position `j` as not for it exactly if its own
position differs from `j` modulo the width of an index. -/
theorem Member.dropsAsNotForMe_iff (h : c.Member ctx.toAmbient room keys) {msg : Arrival}
    (hroom : msg.room = room) (hsender : msg.senderPublicKey ∈ keys)
    {g : GenericProtocolMessage C.RawValue} (hg : C.genericMessage.read msg.payload = some g)
    {j : UInt16} (hj : g.receiver = some j) (hnodup : keys.Nodup) {k : Nat}
    (hk : keys[k]? = some c.pkStr) :
    c.DropsAsNotForMe ctx msg ↔ (k + 1) % 2 ^ 16 ≠ j.toNat := by
  have hvalid := h.valid hroom hsender hg hnodup hk
  simp only [hj, Option.all_some, decide_eq_true_eq] at hvalid
  by_cases hown : UInt16.ofNat (k + 1) = j
  · rw [if_pos hown] at hvalid
    have hdrops : ¬ c.DropsAsNotForMe ctx msg := fun h => nomatch hvalid.symm.trans h.1
    exact iff_of_false hdrops fun h => h (by rw [← hown, UInt16.toNat_ofNat'])
  · rw [if_neg hown] at hvalid
    refine ⟨fun _ h => hown ?_, fun _ => h.drops hroom hvalid⟩
    rw [← UInt16.toNat_inj, UInt16.toNat_ofNat', h]

/-! ## What a member sends -/

/-- What a member sends has the receiver it was written with, and opens to what
was written: a broadcast for everybody, a message for one for the holder of the
receiver's key. -/
theorem Member.sends (laws : WireLaws C) (h : c.Member amb room keys)
    {receiver : Option UInt16} {text : String} (htext : Serialised C receiver text)
    {sk : C.SecretKey}
    (hat : ∀ j, receiver = some j → j ≠ 0 ∧ keys[j.toNat - 1]? = some (C.ownKey sk)) :
    ∃ payload g, maybeEncrypt c.db amb { room, message := text } =
        .ok { room, message := payload } ∧
      C.genericMessage.read payload = some g ∧ g.receiver = receiver ∧
      ∀ msg : Arrival, msg.payload = payload →
        maybeDecrypt sk msg = .ok { msg with payload := text } := by
  obtain ⟨g, hg, hreceiver, hwrite⟩ := htext.generic laws
  cases receiver with
  | none =>
      refine ⟨text, g, maybeEncrypt_of_departs (.broadcast hg hreceiver), hg, hreceiver,
        fun msg hmsg => ?_⟩
      subst hmsg
      simp [maybeDecrypt, hg, hreceiver, bind, Except.bind, pure, Except.pure]
  | some j =>
      obtain ⟨group, t, hnew, -, hgroup⟩ := h.stored
      obtain ⟨gid, -, rfl⟩ := PublicKeyGroup.new_eq_ok.mp hnew
      obtain ⟨hpos, hkey⟩ := hat j rfl
      -- what is put in on the way out, inside to outside: cipher, sealed text, envelope
      obtain ⟨ciphertext, hcipher, hplain⟩ :=
        laws.decrypt sk amb.seed (C.rawValueText g.body).toUTF8
      obtain ⟨sealedText, hsealed, hunseal⟩ :=
        laws.encrypted { encrypted := C.base64Encode ciphertext }
      obtain ⟨body, hbody, hbodyText⟩ := laws.rawEncrypted _ _ hsealed
      obtain ⟨payload, hpayload, hread⟩ := laws.genericMessage { g with body }
      refine ⟨payload, { g with body }, maybeEncrypt_of_departs
        (.encrypted hg hreceiver h.answers hgroup ?_), hread, hreceiver, fun msg hmsg => ?_⟩
      · exact ⟨_, _, _, ciphertext, sealedText, body, payload, hpos, hkey, laws.hexDecode _,
          laws.parsePublicKey _, hcipher, hsealed, hbody, hpayload, rfl⟩
      · subst hmsg
        have hwrite' : C.genericMessage.write ⟨g.sender, g.receiver, g.body⟩ = some text := hwrite
        -- and taken out again
        have hopens : PublicKeyGroup.decrypt (C := C) sk (C.base64Encode ciphertext) =
            .ok (C.rawValueText g.body) := by
          simp only [PublicKeyGroup.decrypt, laws.base64Decode, hplain, context_some, bind,
            Except.bind, fromUTF8?_toUTF8]
        rw [hreceiver] at hwrite'
        simp only [maybeDecrypt, hread, hreceiver, hbodyText, hunseal, hopens, laws.rawValue,
          hwrite', context_some, withContext_ok, bind, Except.bind, pure, Except.pure]

/-- What a member signs and writes is parsed and verified by everybody. -/
theorem Member.posts (laws : WireLaws C) (h : c.Member amb room keys) {msg sent : CoreMessage}
    (hsent : maybeEncrypt c.db amb msg = .ok sent) :
    ∃ w wire, c.Posts amb msg w wire ∧ parseSigned C (.ok wire) = some (.ok w) ∧
      w.room = sent.room ∧ w.payload = sent.message ∧ w.senderPublicKey = c.pkStr := by
  obtain ⟨w, hw⟩ : ∃ w, signEnvelope c.sk c.pkStr sent = .ok w := ⟨_, rfl⟩
  obtain ⟨wire, hwrite, hread⟩ := laws.wireMessage w
  refine ⟨w, wire, ⟨sent, hsent, hw, hwrite⟩, ?_, by cases hw; rfl, by cases hw; rfl,
    by cases hw; rfl⟩
  refine congrArg some (doParseSigned_eq_ok.mpr ⟨hread, C.publicKeyOf c.sk, ?_⟩)
  cases hw
  exact ⟨_, _, _, (congrArg C.hexDecode h.own).trans (laws.hexDecode _), laws.parsePublicKey _,
    laws.hexDecode _, laws.parseSignature _, laws.verify _ _⟩

/-- **Delivered as it was written.** Let two servers of different keys be members
of a room without duplicate keys, and let `B` stand at the receiver's position if
the message has one. What `A` sends reaches `B`'s `handle_incoming_unsafe` in the
room, under `A`'s key and with the text that was serialised. Any member drops a
message for position `j` as not for it exactly if its own position differs from
`j` modulo `2 ^ 16`. -/
theorem reaches_of_sent (laws : WireLaws C) {A B : Coordinator C} {ambA : Ambient}
    (hA : A.Member ambA room keys) (hB : B.Member ctx.toAmbient room keys)
    (hne : A.pkStr ≠ B.pkStr) (hnodup : keys.Nodup) {receiver : Option UInt16} {text : String}
    (htext : Serialised C receiver text)
    (hat : ∀ j, receiver = some j → j ≠ 0 ∧ keys[j.toNat - 1]? = some B.pkStr) :
    ∃ w wire, A.Posts ambA { room, message := text } w wire ∧
      parseSigned C (.ok wire) = some (.ok w) ∧ takeNonOwned B.pkStr (.ok w) = true ∧
      (∀ origin, ∃ msg' : Arrival, B.Reaches ctx ⟨w, origin⟩ msg' ∧ msg'.room = room ∧
        msg'.senderPublicKey = A.pkStr ∧ msg'.payload = text) ∧
      ∀ (D : Coordinator C) ctxD j k origin, receiver = some j →
        D.Member ctxD.toAmbient room keys → keys[k]? = some D.pkStr →
        (D.DropsAsNotForMe ctxD ⟨w, origin⟩ ↔ (k + 1) % 2 ^ 16 ≠ j.toNat) := by
  have hown : ∀ j, receiver = some j → j ≠ 0 ∧ keys[j.toNat - 1]? = some (C.ownKey B.sk) :=
    hB.own ▸ hat
  obtain ⟨payload, g, hencrypt, hg, hreceiver, hopens⟩ := hA.sends laws htext hown
  obtain ⟨w, wire, hposts, hparse, hroom, hpayload, hsender⟩ := hA.posts laws hencrypt
  have hlisted : w.senderPublicKey ∈ keys := hsender ▸ hA.listed
  have hgeneric : C.genericMessage.read w.payload = some g := hpayload ▸ hg
  refine ⟨w, wire, hposts, hparse, ?_, fun origin => ?_, ?_⟩
  · exact decide_eq_true (hsender ▸ hne)
  · -- the own position is `j`, whatever its index modulo the width
    obtain ⟨k, hk⟩ := List.getElem?_of_mem hB.listed
    have hroom' : (⟨w, origin⟩ : Arrival).room = room := hroom
    have hvalid := hB.valid hroom' hlisted hgeneric hnodup hk
    have hposition : g.receiver.all (UInt16.ofNat (k + 1) = ·) = true := by
      refine (Option.all_eq_true _ _).mpr fun j hj => decide_eq_true ?_
      obtain ⟨hpos, hkey⟩ := hat j (hreceiver ▸ hj)
      have hlt : k < keys.length := (List.getElem?_eq_some_iff.mp hk).1
      have hsame : k = j.toNat - 1 := (List.getElem?_inj hlt hnodup).mp (hk.trans hkey.symm)
      have hnat : j.toNat ≠ 0 := fun h => hpos (UInt16.toNat_inj.mp h)
      rw [hsame, Nat.sub_add_cancel (by omega), UInt16.ofNat_toNat]
    rw [if_pos hposition] at hvalid
    exact ⟨_, hB.reaches hroom ⟨hvalid, hopens ⟨w, origin⟩ hpayload⟩, hroom, hsender, rfl⟩
  · intro D ctxD j k origin hj hD hk
    exact hD.dropsAsNotForMe_iff hroom hlisted hgeneric (hreceiver.trans hj) hnodup hk

end

end Coordinator

namespace Sample

theorem jsonTyped_generic {β : Type} (text : β → String) (bodies : List β) (m : Msg β)
    (s : String) (h : (jsonTyped text bodies).write m = some s) :
    ∃ g, jsonMessage.read s = some g ∧ g.receiver = m.receiver ∧ jsonMessage.write g = some s := by
  cases h
  exact ⟨_, readMessage_text _, rfl, rfl⟩

theorem jsonLaws : WireLaws jsonCrates where
  hexDecode := Hex.decode_encode
  base64Decode bytes := by
    show (base64Decode (String.ofList (base64Encode bytes.data.toList)).toList).map _ = _
    rw [String.toList_ofList, base64Decode_encode]
    rfl
  parsePublicKey pk := by cases pk <;> rfl
  parseSignature := parseSignature_serializeSignature
  verify digest sk := by
    show decide (Signature.mk sk digest = Signature.mk sk digest) = true
    exact decide_eq_true rfl
  decrypt sk seed bytes := by
    refine ⟨_, rfl, ?_⟩
    exact if_pos rfl
  wireMessage := jsonWire_roundTrips
  genericMessage := jsonMessage_roundTrips
  encrypted := jsonEncrypted_roundTrips
  rawValue _ := rfl
  rawEncrypted _ text _ := ⟨text, rfl, rfl⟩
  msgKG := jsonTyped_generic keygenBodyText [1, 2, 3, 4]
  msgO := jsonTyped_generic offlineBodyText [1, 2, 3, 4, 5, 6]
  msgS := jsonTyped_generic partialSigText partialSigs

/-- A server whose store holds one group of these keys. -/
def serverOf (keys : List String) (p : Party) : Coordinator jsonCrates :=
  let group := PublicKeyGroup.new keys 1 p.keyText
  (Node.init (C := jsonCrates) p fun key => match group with
    | .ok group => if key = group.groupId then some (.group group) else none
    | .error _ => none).coordinator

theorem pkStr_serverOf (keys : List String) (p : Party) : (serverOf keys p).pkStr = p.keyText :=
  p.encode_keyBytes

theorem member_serverOf {keys : List String} {gid : String} {p : Party} {amb : Ambient}
    (hgid : PublicKeyGroup.groupIdOf keys = .ok gid) (hfree : roomSeparator ∉ gid.toList)
    (hp : p.keyText ∈ keys) (hget : amb.getOk = true) :
    (serverOf keys p).Member amb (makeRoomId "k1" gid) keys := by
  have hnew : PublicKeyGroup.new keys 1 p.keyText = .ok ⟨gid, 1, keys, p.keyText⟩ :=
    PublicKeyGroup.new_eq_ok.mpr ⟨gid, hgid, rfl⟩
  have hid : extractGroupId (makeRoomId "k1" gid) = .ok gid :=
    extractGroupId_makeRoomId (by decide) hfree
  refine ⟨rfl, (pkStr_serverOf keys p).symm ▸ hp, hget, ⟨gid, 1, keys, p.keyText⟩, 1,
    (pkStr_serverOf keys p).symm ▸ hnew, hid, ?_⟩
  have hdb : (serverOf keys p).db gid =
      some (Blob.group ⟨gid, 1, keys, p.keyText⟩) := by
    show (match PublicKeyGroup.new keys 1 p.keyText with
      | .ok group => if gid = group.groupId then some (Blob.group group) else none
      | .error _ => none) = _
    rw [hnew]
    exact if_pos rfl
  rw [Coordinator.storedGroup, hid]
  show ((serverOf keys p).db gid).bind jsonCrates.publicKeyGroup.read = _
  rw [hdb]
  rfl

/-- A message of Alice's for the first position. -/
def forTheFirst : Msg UInt16 := { sender := 2, receiver := some 1, body := 3 }

/-- A message of the second party for the first. -/
def forTheFirstText : String :=
  messageText { sender := 2, receiver := some 1, body := keygenBodyText 3 }

theorem serialised_forTheFirst : Serialised jsonCrates (some 1) forTheFirstText :=
  .keygen (m := forTheFirst) rfl rfl

/-- A context in which everything succeeds. -/
def coordinatorCtx : Ctx := { toAmbient := allWell, freshKG := 0, freshO := 0, freshS := 0 }

/-- Bob before Alice. -/
def bobAndAlice : List String := keyTexts [.bob, .alice]

/-- Their room. -/
def pairsRoom : String := makeRoomId "k1" "c20e0c0873ee5cd6"

theorem member_bobAndAlice (p : Party) (hp : p.keyText ∈ bobAndAlice) :
    (serverOf bobAndAlice p).Member allWell pairsRoom bobAndAlice :=
  member_serverOf (by decide) (by decide) hp rfl

/-- What Alice tells Bob alone reaches him. -/
theorem reaches_of_sent_bob :
    ∃ w wire, (serverOf bobAndAlice .alice).Posts allWell
        { room := pairsRoom, message := forTheFirstText } w wire ∧
      parseSigned jsonCrates (.ok wire) = some (.ok w) ∧
      takeNonOwned (serverOf bobAndAlice .bob).pkStr (.ok w) = true ∧
      (∀ origin, ∃ msg' : Arrival,
        (serverOf bobAndAlice .bob).Reaches coordinatorCtx ⟨w, origin⟩ msg' ∧
        msg'.room = pairsRoom ∧ msg'.senderPublicKey = (serverOf bobAndAlice .alice).pkStr ∧
        msg'.payload = forTheFirstText) ∧
      ∀ (D : Coordinator jsonCrates) (ctxD : Ctx) (j : UInt16) k origin, some 1 = some j →
        D.Member ctxD.toAmbient pairsRoom bobAndAlice → bobAndAlice[k]? = some D.pkStr →
        (D.DropsAsNotForMe ctxD ⟨w, origin⟩ ↔ (k + 1) % 2 ^ 16 ≠ j.toNat) := by
  have hbob : (serverOf bobAndAlice .bob).Member coordinatorCtx.toAmbient pairsRoom bobAndAlice :=
    member_bobAndAlice .bob (by decide)
  refine Coordinator.reaches_of_sent jsonLaws (member_bobAndAlice .alice (by decide)) hbob ?_
    (by decide) serialised_forTheFirst ?_
  · rw [pkStr_serverOf, pkStr_serverOf]
    decide
  · rintro j ⟨⟩
    rw [pkStr_serverOf]
    exact ⟨by decide, rfl⟩

/-! ## More parties than an index can name -/

/-- Keys of parties that hold no server; their pieces are alike. -/
def fillerKey (n : Nat) : String := "0000000000" ++ toString n

/-- Bob comes first, Carol at position `2 ^ 16 + 1`. -/
def crowd : List String :=
  Party.bob.keyText :: Party.alice.keyText ::
    ((List.range 65534).map fillerKey ++ [Party.carol.keyText])

theorem byteSlice_fillerKey (n : Nat) : byteSlice (fillerKey n) 2 10 = .ok "00000000" := by
  have hone : '0'.utf8Size = 1 := by decide
  have hzeros : "0000000000".toList = List.replicate 10 '0' := by decide
  simp [byteSlice, fillerKey, String.toList_append, hzeros, List.replicate, dropBytes, takeBytes,
    hone]

theorem fillerKey_inj {m n : Nat} (h : fillerKey m = fillerKey n) : m = n := by
  have hdigits : Nat.toDigits 10 m = Nat.toDigits 10 n := by
    have htext := congrArg String.toList h
    simpa [fillerKey, Nat.toString_eq_ofList_toDigits] using htext
  rw [← Nat.ofDigitChars_ten_toDigits (n := m), hdigits, Nat.ofDigitChars_ten_toDigits]

theorem fillerKey_ne_keyText (n : Nat) (p : Party) : fillerKey n ≠ p.keyText := by
  intro h
  have hsecond : p.keyText.toList[1]? = some '0' := by
    rw [← h, fillerKey, String.toList_append]
    rfl
  cases p <;> exact absurd hsecond (by decide)

theorem crowd_nodup : crowd.Nodup := by
  have hfillers : ((List.range 65534).map fillerKey).Nodup :=
    List.Pairwise.map fillerKey (fun _ _ hne h => hne (fillerKey_inj h)) List.nodup_range
  have hparty : ∀ p : Party, p.keyText ∉ (List.range 65534).map fillerKey := by
    intro p hp
    obtain ⟨n, -, hn⟩ := List.mem_map.mp hp
    exact fillerKey_ne_keyText n p hn
  have hcarol : ((List.range 65534).map fillerKey ++ [Party.carol.keyText]).Nodup := by
    refine List.nodup_append.mpr ⟨hfillers, List.pairwise_singleton _ _, ?_⟩
    rintro pk hpk q hq rfl
    exact hparty .carol (List.mem_singleton.mp hq ▸ hpk)
  refine List.nodup_cons.mpr ⟨?_, List.nodup_cons.mpr ⟨?_, hcarol⟩⟩
  · rw [List.mem_cons, List.mem_append, List.mem_singleton]
    rintro (h | h | h)
    · exact absurd h (by decide)
    · exact hparty .bob h
    · exact absurd h (by decide)
  · rw [List.mem_append, List.mem_singleton]
    rintro (h | h)
    · exact hparty .alice h
    · exact absurd h (by decide)

theorem crowd_pieces : ∀ pk ∈ crowd, ∃ piece,
    byteSlice pk 2 10 = .ok piece ∧ roomSeparator ∉ piece.toList := by
  intro pk hpk
  simp only [crowd, List.mem_cons, List.mem_append, List.mem_map, List.not_mem_nil,
    or_false] at hpk
  rcases hpk with rfl | rfl | ⟨n, -, rfl⟩ | rfl
  · exact Party.bob.byteSlice_keyText
  · exact Party.alice.byteSlice_keyText
  · exact ⟨_, byteSlice_fillerKey n, by decide⟩
  · exact Party.carol.byteSlice_keyText

theorem crowd_bob : crowd[0]? = some Party.bob.keyText := rfl

theorem crowd_carol : crowd[65536]? = some Party.carol.keyText := by
  have hlength : ((List.range 65534).map fillerKey).length = 65534 := by
    rw [List.length_map, List.length_range]
  rw [crowd, List.getElem?_cons_succ, List.getElem?_cons_succ,
    List.getElem?_append_right (by rw [hlength]), hlength]
  rfl

/-- Carol takes Alice's message for Bob as one for her. -/
theorem not_dropsAsNotForMe_of_crowd :
    ∃ room w wire, WireLaws jsonCrates ∧ crowd.Nodup ∧
      (∀ p : Party, p ≠ .aliceTwin → (serverOf crowd p).Member allWell room crowd) ∧
      Serialised jsonCrates (some 1) forTheFirstText ∧
      crowd[0]? = some (serverOf crowd .bob).pkStr ∧
      crowd[65536]? = some (serverOf crowd .carol).pkStr ∧
      (serverOf crowd .alice).Posts allWell { room, message := forTheFirstText } w wire ∧
      parseSigned jsonCrates (.ok wire) = some (.ok w) ∧
      ¬ (serverOf crowd .carol).DropsAsNotForMe coordinatorCtx ⟨w, 0⟩ := by
  obtain ⟨gid, hgid, hfree⟩ := PublicKeyGroup.groupIdOf_of_pieces crowd_pieces
  have hmember : ∀ p : Party, p ≠ .aliceTwin →
      (serverOf crowd p).Member allWell (makeRoomId "k1" gid) crowd := by
    intro p hp
    refine member_serverOf hgid hfree ?_ rfl
    cases p <;> simp [crowd] at hp ⊢
  have hbob : crowd[0]? = some (serverOf crowd .bob).pkStr := by
    rw [pkStr_serverOf]
    exact crowd_bob
  have hcarol : crowd[65536]? = some (serverOf crowd .carol).pkStr := by
    rw [pkStr_serverOf]
    exact crowd_carol
  have hat : ∀ j : UInt16, some 1 = some j → j ≠ 0 ∧
      crowd[j.toNat - 1]? = some (jsonCrates.ownKey Party.bob) := by
    rintro j ⟨⟩
    exact ⟨by decide, hbob⟩
  obtain ⟨payload, g, hencrypt, hg, hreceiver, -⟩ :=
    (hmember .alice (by decide)).sends jsonLaws serialised_forTheFirst hat
  obtain ⟨w, wire, hposts, hparse, hroom, hpayload, hsender⟩ :=
    (hmember .alice (by decide)).posts jsonLaws hencrypt
  have hlisted : w.senderPublicKey ∈ crowd := hsender ▸ (hmember .alice (by decide)).listed
  have hmine : (serverOf crowd .carol).Member coordinatorCtx.toAmbient (makeRoomId "k1" gid) crowd :=
    hmember .carol (by decide)
  have hroom' : (⟨w, 0⟩ : Arrival).room = makeRoomId "k1" gid := hroom
  -- place 65537 wraps around to the index that the message is for
  have hdrops := hmine.dropsAsNotForMe_iff hroom' hlisted (hpayload ▸ hg) hreceiver crowd_nodup
    hcarol
  exact ⟨_, w, wire, jsonLaws, crowd_nodup, hmember, serialised_forTheFirst, hbob, hcarol, hposts,
    hparse, fun h => hdrops.mp h (by decide)⟩

end Sample

end MpcServer

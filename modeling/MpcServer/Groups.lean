import MpcServer.Actors.Identities
import MpcServer.Sample

/-!
# Which group a room leads to

A room names its group by an id of eight bytes a key, and the store keeps the
first group saved under an id. So the lookups of a session find the group of
whoever came first: its own participants, or those of an earlier request that
happens to have the same id.
-/

namespace MpcServer

open Rust Rust.Method Machine

variable {C : Crates}

variable (C) in
/-- A group reads back as it was written, and a public key has another length
than any group id: 33 bytes in hexadecimal. -/
structure GroupLaws : Prop where
  publicKeyGroup : ∀ group blob, C.publicKeyGroup.write group = some blob →
    C.publicKeyGroup.read blob = some group
  sumPk : ∀ key : C.LocalKey, byteLength (sumPk key) = 66

namespace Coordinator

/-- The group stored for a room. -/
def storedGroup (c : Coordinator C) (room : String) : Option PublicKeyGroup :=
  match extractGroupId room with
  | .ok groupId => (c.db groupId).bind C.publicKeyGroup.read
  | .error _ => none

theorem storedGroup_continues {c c' : Coordinator C} (h : Node.Continues c c') {room : String}
    {group : PublicKeyGroup} (hg : c.storedGroup room = some group) :
    c'.storedGroup room = some group := by
  unfold storedGroup at hg ⊢
  split at hg
  · obtain ⟨blob, hblob, hread⟩ := Option.bind_eq_some_iff.mp hg
    exact Option.bind_eq_some_iff.mpr ⟨blob, h.db _ _ hblob, hread⟩
  · cases hg

theorem storedGroup_of_retrieved {c : Coordinator C} {amb : Ambient} {room groupId : String}
    {group : PublicKeyGroup} (hid : extractGroupId room = .ok groupId)
    (hget : retrieveGroup c.db amb groupId = .ok group) :
    amb.getOk = true ∧ c.storedGroup room = some group := by
  simp only [retrieveGroup, Tree.get, bind_eq_ok, context_eq_ok] at hget
  obtain ⟨blob, hblob, hread⟩ := hget
  split at hblob
  · rename_i hok
    rw [context_eq_ok] at hblob
    exact ⟨hok, by simp [storedGroup, hid, hblob, hread]⟩
  · cases hblob

/-- The check passes members of the stored group with a payload it can read,
whose message is for everybody or for this party. -/
theorem validSenderAndReceiver_eq_ok {c : Coordinator C} {amb : Ambient} {msg : Arrival}
    (h : validSenderAndReceiver c amb msg = .ok ()) :
    ∃ group m, c.storedGroup msg.room = some group ∧ msg.senderPublicKey ∈ group.publicKeys ∧
      C.genericMessage.read msg.payload = some m ∧
      ∀ j, m.receiver = some j → group.getI = .ok j := by
  unfold validSenderAndReceiver at h
  split at h
  · cases h
  · rename_i groupId hid
    split at h
    · cases h
    · rename_i group hget
      have hgroup := (storedGroup_of_retrieved hid hget).2
      split at h
      · cases h
      · rename_i index hindex
        have hmember : msg.senderPublicKey ∈ group.publicKeys :=
          (group.getIndex_isSome_iff _).mp (by rw [hindex]; rfl)
        split at h
        · cases h
        · rename_i m hm
          refine ⟨group, m, hgroup, hmember, hm, fun j hj => ?_⟩
          rw [hj] at h
          cases hI : group.getI with
          | error p => simp [hI] at h
          | ok i =>
              by_cases hij : j = i
              · rw [hij]
              · simp [hI, hij] at h

end Coordinator

namespace Node

/-! ## The groups that are written -/

/-- The group an observation says was written. -/
def writtenGroup : Obs C → Option PublicKeyGroup
  | .effect (.savedGroup group true) => some group
  | _ => none

/-- The group that is saved first under an id: what the store held to begin
with, or the first one written. -/
def firstSaved (db : Tree C) (os : List (Obs C)) (groupId : String) : Option PublicKeyGroup :=
  match db groupId with
  | some blob => C.publicKeyGroup.read blob
  | none => (os.filterMap writtenGroup).find? (·.groupId = groupId)

/-- What writing the groups of a step does to the entries of groups. -/
inductive Writes (db db' : Tree C) : List PublicKeyGroup → Prop
  | none : (∀ groupId, 8 ∣ byteLength groupId → db' groupId = db groupId) → Writes db db' []
  | one {group blob} : C.publicKeyGroup.write group = some blob →
      db' = FirstWrite.put db group.groupId blob → Writes db db' [group]

theorem Writes.same (db : Tree C) : Writes db db [] := .none fun _ _ => rfl

theorem Writes.of_stores {db db' : Tree C} {ctx : Ctx} {group : PublicKeyGroup} {written : Bool}
    (h : Coordinator.Stores db ctx group db' written) {groups : List PublicKeyGroup}
    (hgroups : groups = if written then [group] else []) : Writes db db' groups := by
  subst hgroups
  cases h with
  | written hwrite _ => exact .one hwrite rfl
  | lost _ => exact .same db

/-- A share is stored beside the groups. -/
theorem Writes.of_output (laws : GroupLaws C) (c : Coordinator C)
    (out : ProtocolOutput KeygenRequest C.LocalKey) (ctx : Ctx) :
    Writes c.db (c.dbAfterOutputKG out ctx) [] := by
  refine .none fun groupId hlength => ?_
  unfold Coordinator.dbAfterOutputKG
  cases hsave : saveShare c.db ctx.toAmbient (c.shareOf out) with
  | error e => rfl
  | ok db =>
      simp only [saveShare, bind_eq_ok, Tree.compareAndSwap] at hsave
      obtain ⟨_, -, blob, -, hsave⟩ := hsave
      split at hsave
      · cases hsave
        refine FirstWrite.put_ne _ (fun heq => ?_) _
        rw [heq, laws.sumPk] at hlength
        exact absurd hlength (by decide)
      · cases hsave

theorem Handled.writes (laws : GroupLaws C) {c c' : Coordinator C} {ctx : Ctx} {m : Mail C}
    {r : Except (Stop String) Unit} {es : List (Effect C)} (h : Handled c ctx m r c' es) :
    Writes c.db c'.db ((es.map Obs.effect).filterMap writtenGroup) := by
  cases h with
  | keygenRequest h =>
      cases h with
      | refused _ => exact .same _
      | @began _ _ _ _ written _ hs => exact .of_stores hs (by cases written <;> rfl)
  | signRequest h =>
      cases h with
      | refused _ => exact .same _
      | @mismatched _ _ _ _ _ written _ hs _ => exact .of_stores hs (by cases written <;> rfl)
      | @failed _ _ _ _ _ written _ _ hs _ _ => exact .of_stores hs (by cases written <;> rfl)
      | @began _ _ _ _ written _ _ _ _ hs _ _ => exact .of_stores hs (by cases written <;> rfl)
  | outgoing hes =>
      have hnil : (es.map Obs.effect).filterMap writtenGroup = [] := by
        refine List.filterMap_eq_nil_iff.mpr fun x hx => ?_
        obtain ⟨e, he, rfl⟩ := List.mem_map.mp hx
        obtain ⟨m, rfl⟩ := hes e he
        rfl
      rw [hnil]
      exact .same _
  | outputKG h =>
      cases h with
      | panicked _ => exact .same _
      | done _ => exact .of_output laws _ _ _
  | outputO h => cases h <;> exact .same _
  | outputS => exact .same _

theorem Steps.writes (laws : GroupLaws C) {n t : Node C} {e : Event} {o : List (Obs C)}
    (h : Steps n e t o) :
    Writes n.coordinator.db t.coordinator.db (o.filterMap writtenGroup) := by
  cases h.turns with
  | idle hc ho =>
      have hnil : o.filterMap writtenGroup = [] := by
        refine List.filterMap_eq_nil_iff.mpr fun x hx => ?_
        have hidle := ho x hx
        cases x with
        | effect e => cases e <;> first | rfl | cases hidle
        | _ => rfl
      rw [hnil, hc]
      exact .same _
  | handled _ _ hh hc _ _ ho =>
      rw [ho, hc]
      exact hh.writes laws

/-! ## What the store holds -/

/-- An entry of a group is the first that was saved. -/
structure HoldsFirst (db : Tree C) (os : List (Obs C)) (c : Coordinator C) : Prop where
  entry : ∀ groupId, 8 ∣ byteLength groupId → c.db groupId = (db groupId).or
    (((os.filterMap writtenGroup).find? (·.groupId = groupId)).bind C.publicKeyGroup.write)
  written : ∀ group ∈ os.filterMap writtenGroup, (C.publicKeyGroup.write group).isSome = true

theorem HoldsFirst.step {db : Tree C} {os o : List (Obs C)} {c c' : Coordinator C}
    (h : HoldsFirst db os c) (hw : Writes c.db c'.db (o.filterMap writtenGroup)) :
    HoldsFirst db (os ++ o) c' := by
  generalize hgroups : o.filterMap writtenGroup = groups at hw
  cases hw with
  | none hsame =>
      refine ⟨fun groupId hlength => ?_, ?_⟩ <;>
        rw [List.filterMap_append, hgroups, List.append_nil]
      · rw [hsame groupId hlength, h.entry groupId hlength]
      · exact h.written
  | @one group blob hwrite hdb =>
      refine ⟨fun groupId hlength => ?_, fun g hg => ?_⟩
      · rw [List.filterMap_append, hgroups, List.find?_append, hdb, FirstWrite.put_apply]
        by_cases hid : groupId = group.groupId
        · subst hid
          rw [if_pos rfl, h.entry _ hlength]
          cases hfind : (os.filterMap writtenGroup).find? (·.groupId = group.groupId) with
          | none => simp [hwrite]
          | some g =>
              -- a group was saved under this id before, so its entry stands
              have hsome := h.written g (List.mem_of_find?_eq_some hfind)
              obtain ⟨b, hb⟩ := Option.isSome_iff_exists.mp hsome
              simp [hb]
        · rw [if_neg hid, h.entry _ hlength]
          simp [Ne.symm hid]
      · rw [List.filterMap_append, hgroups] at hg
        rcases List.mem_append.mp hg with hg | hg
        · exact h.written g hg
        · obtain rfl := List.mem_singleton.mp hg
          simp [hwrite]

theorem holdsFirst_of_run (laws : GroupLaws C) {guard : Node C → Event → Prop}
    {sk : C.SecretKey} {db : Tree C} {os : List (Obs C)} {n : Node C}
    (hrun : Run step guard (init sk db) os n) : HoldsFirst db os n.coordinator := by
  refine hrun.invariant (fun os n => HoldsFirst db os n.coordinator)
    ⟨fun _ _ => by simp [Node.init], by simp⟩ fun _ h _ hs => ?_
  exact h.step ((step_cases hs).writes laws)

/-- **The first group saved is the one looked up**, from then on. -/
theorem storedGroup_eq_firstSaved (laws : GroupLaws C) {guard : Node C → Event → Prop}
    {sk : C.SecretKey} {db : Tree C} {os : List (Obs C)} {n : Node C}
    (hrun : Run step guard (init sk db) os n) {room groupId : String}
    (hroom : extractGroupId room = .ok groupId) (hlength : 8 ∣ byteLength groupId) :
    n.coordinator.storedGroup room = firstSaved db os groupId := by
  have hfirst := holdsFirst_of_run laws hrun
  unfold Coordinator.storedGroup firstSaved
  simp only [hroom, hfirst.entry groupId hlength]
  cases db groupId with
  | some blob => simp
  | none =>
      cases hfind : (os.filterMap writtenGroup).find? (·.groupId = groupId) with
      | none => simp
      | some group =>
          have hsome := hfirst.written group (List.mem_of_find?_eq_some hfind)
          obtain ⟨blob, hblob⟩ := Option.isSome_iff_exists.mp hsome
          simp [hblob, laws.publicKeyGroup _ _ hblob]

/-! ## Sessions -/

/-- The room of every runner and the participants of its request. -/
def sessions (n : Node C) : List (String × List String) :=
  n.identitiesKG.map (fun i => (i.room, i.input.participantPublicKeys)) ++
    n.identitiesO.map fun i => (i.room, i.input.inner.participantPublicKeys)

/-- A session whose room yields the id of its request's group. -/
structure Session (n : Node C) (room : String) (keys : List String) (groupId : String) :
    Prop where
  begun : (room, keys) ∈ n.sessions
  id : PublicKeyGroup.groupIdOf keys = .ok groupId
  room : extractGroupId room = .ok groupId

end Node

namespace Coordinator

variable {c : Coordinator C} {amb : Ambient} {room : String} {group : PublicKeyGroup}

theorem retrieveGroup_of_stored (hget : amb.getOk = true)
    (hgroup : c.storedGroup room = some group) :
    ∃ groupId, extractGroupId room = .ok groupId ∧ retrieveGroup c.db amb groupId = .ok group := by
  unfold storedGroup at hgroup
  split at hgroup
  · rename_i groupId hid
    obtain ⟨blob, hblob, hread⟩ := Option.bind_eq_some_iff.mp hgroup
    refine ⟨groupId, hid, ?_⟩
    simp [retrieveGroup, Tree.get, hget, hblob, hread, bind, Except.bind]
  · cases hgroup

/-- A sender is turned away as a stranger exactly when the group does not list
its key. -/
theorem wrongPublicKey_iff (hget : amb.getOk = true) {msg : Arrival}
    (hgroup : c.storedGroup msg.room = some group) :
    validSenderAndReceiver c amb msg = .error (.err .wrongPublicKey) ↔
      msg.senderPublicKey ∉ group.publicKeys := by
  obtain ⟨groupId, hid, hretrieve⟩ := retrieveGroup_of_stored hget hgroup
  rw [← PublicKeyGroup.getIndex_isSome_iff]
  simp only [validSenderAndReceiver, hid, hretrieve]
  cases group.getIndex msg.senderPublicKey with
  | none => simp
  | some i =>
      simp only [Option.isSome_some, not_true_eq_false, iff_false]
      cases C.genericMessage.read msg.payload with
      | none => simp
      | some m =>
          cases hreceiver : m.receiver with
          | none => simp [hreceiver]
          | some j =>
              cases group.getI with
              | error p => simp [hreceiver]
              | ok i => by_cases hij : j = i <;> simp [hreceiver, hij]

end Coordinator

/-- The message's body is encrypted to the key of its receiver. -/
def EncryptedTo (keys : List String) (m : GenericProtocolMessage C.RawValue) (j : UInt16)
    (seed : Nat) (msg msg' : CoreMessage) : Prop :=
  ∃ key bytes pk ciphertext sealedText body text,
    j ≠ 0 ∧ keys[j.toNat - 1]? = some key ∧ C.hexDecode key = some bytes ∧
    C.parsePublicKey bytes = some pk ∧
    C.encrypt pk seed (C.rawValueText m.body).toUTF8 = some ciphertext ∧
    C.encrypted.write { encrypted := C.base64Encode ciphertext } = some sealedText ∧
    C.rawValueFromString sealedText = some body ∧
    C.genericMessage.write { m with body } = some text ∧ msg' = { msg with message := text }

namespace PublicKeyGroup

theorem getPublicKey_eq_ok {group : PublicKeyGroup} {index : Nat} {key : String}
    (h : group.getPublicKey index = .ok key) :
    index ≠ 0 ∧ group.publicKeys[index - 1]? = some key := by
  unfold getPublicKey at h
  split at h
  · cases h
  · rename_i hrange
    cases h
    exact ⟨fun h0 => hrange (.inl h0), by simp⟩

end PublicKeyGroup

theorem encryptedTo_of_maybeEncrypt {c : Coordinator C} {amb : Ambient} (hget : amb.getOk = true)
    {msg msg' : CoreMessage} {group : PublicKeyGroup}
    (hgroup : c.storedGroup msg.room = some group) {m : GenericProtocolMessage C.RawValue}
    (hm : C.genericMessage.read msg.message = some m) {j : UInt16} (hj : m.receiver = some j)
    (h : maybeEncrypt c.db amb msg = .ok msg') :
    EncryptedTo group.publicKeys m j amb.seed msg msg' := by
  obtain ⟨groupId, hid, hretrieve⟩ := Coordinator.retrieveGroup_of_stored hget hgroup
  simp only [maybeEncrypt, hm, context_some, bind_eq_ok, Except.ok.injEq, exists_eq_left', hj,
    hid, hretrieve, withContext_eq_ok, context_eq_ok] at h
  obtain ⟨encrypted, henc, sealedText, hsealed, body, hbody, text, htext, h⟩ := h
  unfold PublicKeyGroup.encrypt at henc
  cases hkey : group.getPublicKey j.toNat with
  | error e => cases e; simp [hkey, bind, Except.bind] at henc
  | ok key =>
      simp only [hkey, bind_eq_ok, Except.ok.injEq, exists_eq_left', context_eq_ok] at henc
      obtain ⟨bytes, hbytes, pk, hpk, ciphertext, hcipher, henc⟩ := henc
      cases henc
      cases h
      obtain ⟨hpos, hmem⟩ := PublicKeyGroup.getPublicKey_eq_ok hkey
      refine ⟨key, bytes, pk, ciphertext, sealedText, body, text, ?_, hmem, hbytes, hpk, hcipher,
        hsealed, hbody, by rw [hj]; exact htext, rfl⟩
      rintro rfl
      exact hpos rfl

namespace Node

/-- **A session whose list came first** is looked up with that list: the group
found for its room lists exactly the participants of its request, a sender is
a stranger exactly when they do not include its key, and a message for receiver
`j` is encrypted to the `j`-th of them. -/
theorem lookup_of_session (laws : GroupLaws C) {sk : C.SecretKey} {db : Tree C}
    {os : List (Obs C)} {n : Node C} (hrun : Run step anyStep (init sk db) os n)
    {room groupId : String} {keys : List String} (hsession : Session n room keys groupId)
    (hfirst : (firstSaved db os groupId).map (·.publicKeys) = some keys) :
    (∃ group, n.coordinator.storedGroup room = some group ∧ group.publicKeys = keys) ∧
      (∀ amb (msg : Arrival), amb.getOk = true → msg.room = room →
        (Coordinator.validSenderAndReceiver n.coordinator amb msg =
          .error (.err .wrongPublicKey) ↔ msg.senderPublicKey ∉ keys)) ∧
      ∀ amb (msg msg' : CoreMessage) m j, amb.getOk = true → msg.room = room →
        C.genericMessage.read msg.message = some m → m.receiver = some j →
        maybeEncrypt n.coordinator.db amb msg = .ok msg' →
          EncryptedTo keys m j amb.seed msg msg' := by
  have hlength : 8 ∣ byteLength groupId :=
    ⟨keys.length, PublicKeyGroup.byteLength_groupIdOf hsession.id⟩
  obtain ⟨group, hgroup, rfl⟩ := Option.map_eq_some_iff.mp hfirst
  rw [← storedGroup_eq_firstSaved laws hrun hsession.room hlength] at hgroup
  refine ⟨⟨group, hgroup, rfl⟩, fun amb msg hget hmsg => ?_,
    fun amb msg msg' m j hget hmsg hm hj h => ?_⟩
  · subst hmsg
    exact Coordinator.wrongPublicKey_iff hget hgroup
  · subst hmsg
    exact encryptedTo_of_maybeEncrypt hget hgroup hm hj h

end Node

namespace Sample

theorem groupLaws (sc : Scenario) : GroupLaws (crates sc) where
  publicKeyGroup := by
    rintro group blob h
    cases h
    rfl
  sumPk key := by
    show byteLength (Hex.encode ⟨(2 :: List.replicate 32 key.tag).toArray⟩) = 66
    rw [Hex.byteLength_encode]
    rfl

/-- The session of Alice and Bob finds their group. -/
theorem lookup_of_first :
    ∃ os n, Run Node.step anyStep (bobsNode keygen nothing) os n ∧
      n.Session "k1@73ee5cd6c20e0c08" (keyTexts [.alice, .bob]) "73ee5cd6c20e0c08" ∧
        ((∃ group, n.coordinator.storedGroup "k1@73ee5cd6c20e0c08" = some group ∧
            group.publicKeys = keyTexts [.alice, .bob]) ∧
          (∀ amb (msg : Arrival), amb.getOk = true → msg.room = "k1@73ee5cd6c20e0c08" →
            (Coordinator.validSenderAndReceiver n.coordinator amb msg =
              .error (.err .wrongPublicKey) ↔
                msg.senderPublicKey ∉ keyTexts [.alice, .bob])) ∧
          ∀ amb (msg msg' : CoreMessage) m j, amb.getOk = true →
            msg.room = "k1@73ee5cd6c20e0c08" →
            (genericCodec keygen).read msg.message = some m → m.receiver = some j →
            maybeEncrypt n.coordinator.db amb msg = .ok msg' →
              EncryptedTo (C := crates keygen) (keyTexts [.alice, .bob]) m j amb.seed msg msg') := by
  obtain ⟨os, n, hrun, hend⟩ := Run.ofTest Node.step anyStep
    (bobsNode keygen nothing)
    [.request (.keygen (keygenOf "k1" [.alice, .bob] 1)), .mail allWell]
    (fun r => decide (("k1@73ee5cd6c20e0c08", keyTexts [.alice, .bob]) ∈ r.1.sessions ∧
      (Node.firstSaved nothing r.2 "73ee5cd6c20e0c08").map (·.publicKeys) =
        some (keyTexts [.alice, .bob])))
    (by decide) (admits_anyStep _ _)
  obtain ⟨hbegun, hfirst⟩ := of_decide_eq_true hend
  have hsession : n.Session "k1@73ee5cd6c20e0c08" (keyTexts [.alice, .bob]) "73ee5cd6c20e0c08" :=
    ⟨hbegun, by decide, by decide +kernel⟩
  exact ⟨os, n, hrun, hsession, Node.lookup_of_session (groupLaws keygen) hrun hsession hfirst⟩

/-- The twin's key differs from Alice's in its first byte only, so a later
session of the twin and Bob finds the group of Alice and Bob. -/
theorem lookup_of_twin :
    ∃ os n, Run Node.step anyStep (bobsNode keygen nothing) os n ∧
      n.Session "k2@73ee5cd6c20e0c08" (keyTexts [.aliceTwin, .bob]) "73ee5cd6c20e0c08" ∧
        (n.coordinator.storedGroup "k2@73ee5cd6c20e0c08").map (·.publicKeys) =
          some (keyTexts [.alice, .bob]) ∧
        keyTexts [.alice, .bob] ≠ keyTexts [.aliceTwin, .bob] := by
  obtain ⟨os, n, hrun, hend⟩ := Run.ofTest Node.step anyStep
    (bobsNode keygen nothing)
    [.request (.keygen (keygenOf "k1" [.alice, .bob] 1)), .mail allWell,
      .request (.keygen (keygenOf "k2" [.aliceTwin, .bob] 1)), .mail allWell]
    (fun r => decide (("k2@73ee5cd6c20e0c08", keyTexts [.aliceTwin, .bob]) ∈ r.1.sessions ∧
      (r.1.coordinator.storedGroup "k2@73ee5cd6c20e0c08").map (·.publicKeys) =
        some (keyTexts [.alice, .bob])))
    (by decide) (admits_anyStep _ _)
  obtain ⟨hbegun, hstored⟩ := of_decide_eq_true hend
  exact ⟨os, n, hrun, ⟨hbegun, by decide, by decide +kernel⟩, hstored,
    by decide⟩

end Sample

end MpcServer

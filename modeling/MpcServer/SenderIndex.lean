import MpcServer.Actors.Copies
import MpcServer.Groups

/-!
# Whose index a message carries

The check of an incoming message asks whether the key of the envelope is one
of the group's and leaves the index inside the payload alone. So what a runner
is handed names the index of the key that signed it exactly where the
envelopes say so themselves.
-/

namespace MpcServer

open Rust Rust.Method Machine

variable {C : Crates}

variable (C) in
/-- What the readers of one JSON text agree on: the `sender` field. -/
structure SenderLaws : Prop where
  msgKG : ∀ text m, C.msgKG.read text = some m →
    ∃ g, C.genericMessage.read text = some g ∧ g.sender = m.sender
  msgO : ∀ text m, C.msgO.read text = some m →
    ∃ g, C.genericMessage.read text = some g ∧ g.sender = m.sender
  msgS : ∀ text m, C.msgS.read text = some m →
    ∃ g, C.genericMessage.read text = some g ∧ g.sender = m.sender
  genericMessage : ∀ g text, C.genericMessage.write g = some text →
    ∃ g', C.genericMessage.read text = some g' ∧ g'.sender = g.sender

namespace Coordinator

/-- The key stands at the sender's index in the group stored for the room. -/
def SenderIsIndex (c : Coordinator C) (room key : String) (sender : UInt16) : Prop :=
  ∃ group, c.storedGroup room = some group ∧ group.getIndex key = some sender.toNat

/-- The envelope names the index its key has in the group of its room. -/
def NamesOwnIndex (c : Coordinator C) (msg : Arrival) : Prop :=
  match c.storedGroup msg.room, C.genericMessage.read msg.payload with
  | some group, some m => group.getIndex msg.senderPublicKey = some m.sender.toNat
  | _, _ => True

instance (c : Coordinator C) (msg : Arrival) : Decidable (c.NamesOwnIndex msg) := by
  unfold NamesOwnIndex
  split <;> infer_instance

theorem SenderIsIndex.continues {c c' : Coordinator C} {room key : String} {sender : UInt16}
    (h : c.SenderIsIndex room key sender) (hc : Node.Continues c c') :
    c'.SenderIsIndex room key sender :=
  h.imp fun _ hg => ⟨storedGroup_continues hc hg.1, hg.2⟩

end Coordinator

namespace Node

/-! ## What is known of a copy -/

/-- The copy stems from an envelope whose signature was verified, in its room
and under its key. -/
def FromBroker (os : List (Obs C)) (a : Arrival) : Prop :=
  ∃ w pk, .received a.origin w ∈ os ∧ SignatureHolds (C := C) w pk ∧ w.room = a.room ∧
    w.senderPublicKey = a.senderPublicKey

/-- Besides, its payload names the index of that key. -/
def Vetted (os : List (Obs C)) (c : Coordinator C) (a : Arrival) : Prop :=
  FromBroker os a ∧ ∃ g, C.genericMessage.read a.payload = some g ∧
    c.SenderIsIndex a.room a.senderPublicKey g.sender

/-- What a runner is handed: the room, the copy and the `sender` of the
message read from it. -/
def handed : Obs C → Option (String × Arrival × UInt16)
  | .effect (.deliverKG _ m) => some (m.room, m.wireMessage, m.message.sender)
  | .effect (.deliverO _ m) => some (m.room, m.wireMessage, m.message.sender)
  | .effect (.deliverS _ m) => some (m.room, m.wireMessage, m.message.sender)
  | _ => none

section
variable {os os' : List (Obs C)} {c c' : Coordinator C} {a : Arrival}

theorem FromBroker.mono (h : FromBroker os a) (hsub : os ⊆ os') : FromBroker os' a := by
  obtain ⟨w, pk, hw, hrest⟩ := h
  exact ⟨w, pk, hsub hw, hrest⟩

theorem Vetted.mono (h : Vetted os c a) (hsub : os ⊆ os') (hc : Continues c c') :
    Vetted os' c' a := by
  obtain ⟨hfrom, g, hg, hindex⟩ := h
  exact ⟨hfrom.mono hsub, g, hg, hindex.continues hc⟩

/-- A checked copy of an envelope that names its own index is vetted. -/
theorem vetted_of_passes (laws : SenderLaws C) {amb : Ambient} {msg msg' : Arrival}
    (hp : Coordinator.Passes c amb msg msg') (hname : c.NamesOwnIndex msg)
    (hfrom : FromBroker os msg) : Vetted os c msg' := by
  obtain ⟨hvalid, hdec⟩ := hp
  obtain ⟨group, m, hgroup, -, hm, -⟩ := Coordinator.validSenderAndReceiver_eq_ok hvalid
  have hindex : group.getIndex msg.senderPublicKey = some m.sender.toNat := by
    simpa [Coordinator.NamesOwnIndex, hgroup, hm] using hname
  obtain ⟨m', hm', ⟨-, rfl⟩ | ⟨body, text, hwrite, rfl⟩⟩ := maybeDecrypt_eq_ok hdec
  · exact ⟨hfrom, m, hm, group, hgroup, hindex⟩
  · obtain rfl : m' = m := Option.some.inj (hm'.symm.trans hm)
    obtain ⟨g, hg, hsender⟩ := laws.genericMessage _ _ hwrite
    exact ⟨hfrom, g, hg, group, hgroup, by rw [hsender]; exact hindex⟩

end

/-! ## Steps and runs -/

/-- An envelope that is accepted names the index of its key. -/
def AcceptsOwnIndex (n : Node C) (e : Event) : Prop :=
  match n.checkedAt e with
  | some (a, amb) => Coordinator.validSenderAndReceiver n.coordinator amb a = .ok () →
      n.coordinator.NamesOwnIndex a
  | none => True

instance (n : Node C) (e : Event) : Decidable (AcceptsOwnIndex n e) := by
  unfold AcceptsOwnIndex
  split <;> infer_instance

theorem AcceptsOwnIndex.names {n : Node C} {e : Event} {a : Arrival} {amb : Ambient}
    (hg : AcceptsOwnIndex n e) (he : n.checkedAt e = some (a, amb))
    (hvalid : Coordinator.validSenderAndReceiver n.coordinator amb a = .ok ()) :
    n.coordinator.NamesOwnIndex a := by
  simp only [AcceptsOwnIndex, he] at hg
  exact hg hvalid

theorem signatureHolds_of_arriving {n : Node C} {item : Except String String} {w : WireMessage}
    (h : n.arriving item = some w) : ∃ pk, SignatureHolds (C := C) w pk := by
  unfold arriving at h
  split at h
  · rename_i w' hparse
    split at h
    · cases h
      cases item with
      | error _ => cases hparse
      | ok msg => exact (doParseSigned_eq_ok.mp (Option.some.inj hparse)).2
    · cases h
  · cases h

/-- What arrives is from the broker, and what passes the check is vetted. -/
theorem senderCopies (laws : SenderLaws C) (n₀ : Node C) :
    CopyLaws AcceptsOwnIndex n₀ (fun os _ a => FromBroker os a)
      (fun os n a => Vetted os n.coordinator a) where
  raw _ _ _ ha := ha.mono (List.subset_append_left _ _)
  vetted _ _ hs ha := ha.mono (List.subset_append_left _ _) (step_cases hs).continues
  received _ _ harr hmem := by
    obtain ⟨pk, hpk⟩ := signatureHolds_of_arriving harr
    exact ⟨_, pk, List.mem_append_right _ hmem, hpk, rfl, rfl⟩
  passed _ hg hs hchecked hfrom hp :=
    (vetted_of_passes laws hp (hg.names hchecked hp.1) hfrom).mono (List.Subset.refl _)
      (step_cases hs).continues

/-- The reader of a runner's messages finds the sender the check has seen. -/
theorem sender_of_delivers (laws : SenderLaws C) {x : Obs C} {a b : Arrival} {room : String}
    {sender : UInt16} (hd : Delivers a x) (hh : handed x = some (room, b, sender)) :
    a.room = room ∧ b = a ∧ ∃ g, C.genericMessage.read a.payload = some g ∧
      g.sender = sender := by
  cases hd with
  | keygen hm => cases hh; exact ⟨rfl, rfl, laws.msgKG _ _ hm⟩
  | offline hm => cases hh; exact ⟨rfl, rfl, laws.msgO _ _ hm⟩
  | sign hm => cases hh; exact ⟨rfl, rfl, laws.msgS _ _ hm⟩

theorem handedCopy_of_handed {x : Obs C} {a : Arrival} {room : String} {sender : UInt16}
    (hh : handed x = some (room, a, sender)) : handedCopy x = some a := by
  unfold handed at hh
  split at hh <;> cases hh <;> rfl

/-- **Nobody speaks for another.** In a run in which every accepted envelope
names the index of its key, whatever a runner is handed stems from an envelope
with a verified signature, in its room, and its `sender` is the index that the
key of this signature has in the group stored for the room. -/
theorem senderIsIndex_of_handed (laws : SenderLaws C) {sk : C.SecretKey} {db : Tree C}
    {os : List (Obs C)} {n : Node C} (hrun : Run step AcceptsOwnIndex (init sk db) os n)
    {x : Obs C} (hx : x ∈ os) {room : String} {a : Arrival} {sender : UInt16}
    (hh : handed x = some (room, a, sender)) :
    ∃ w pk, .received a.origin w ∈ os ∧ SignatureHolds (C := C) w pk ∧ w.room = room ∧
      n.coordinator.SenderIsIndex room w.senderPublicKey sender := by
  have hknown := known_of_run (senderCopies laws (init sk db)) hrun x hx
  obtain ⟨hdelivers, ⟨w, pk, hw, hpk, hwroom, hwkey⟩, g, hg, hindex⟩ :=
    hknown.delivered a (handedCopy_of_handed hh)
  obtain ⟨hroom, -, g', hg', hsender⟩ := sender_of_delivers laws hdelivers hh
  obtain rfl : g = g' := Option.some.inj (hg.symm.trans hg')
  exact ⟨w, pk, hw, hpk, hwroom.trans hroom, by rwa [hwkey, ← hroom, ← hsender]⟩

end Node

namespace Sample

theorem typedCodec_sender {β : Type} {sc : Scenario} {text : β → String} {bodies : List β}
    {s : String} {m : Msg β} (h : (typedCodec sc text bodies).read s = some m) :
    ∃ g, (genericCodec sc).read s = some g ∧ g.sender = m.sender := by
  obtain ⟨g, hg, h⟩ := Option.bind_eq_some_iff.mp h
  obtain ⟨body, -, rfl⟩ := Option.map_eq_some_iff.mp h
  exact ⟨g, hg, rfl⟩

theorem genericCodec_sender {sc : Scenario} (hsc : ∀ k ∈ sc.messages, ∀ g ∈ sc.messages,
      messageText k = messageText g → k.sender = g.sender)
    {g : GenericProtocolMessage String} {s : String} (h : (genericCodec sc).write g = some s) :
    ∃ g', (genericCodec sc).read s = some g' ∧ g'.sender = g.sender := by
  simp only [genericCodec, codec, Option.ite_none_right_eq_some, Option.some.injEq] at h
  obtain ⟨hg, rfl⟩ := h
  cases hfind : sc.messages.find? (messageText · = messageText g) with
  | none => simpa using List.find?_eq_none.mp hfind g hg
  | some k =>
      refine ⟨k, hfind, hsc k (List.mem_of_find?_eq_some hfind) g hg ?_⟩
      simpa using List.find?_some hfind

theorem senderLaws {sc : Scenario} (hsc : ∀ k ∈ sc.messages, ∀ g ∈ sc.messages,
    messageText k = messageText g → k.sender = g.sender) : SenderLaws (crates sc) where
  msgKG _ _ h := typedCodec_sender h
  msgO _ _ h := typedCodec_sender h
  msgS _ _ h := typedCodec_sender h
  genericMessage _ _ h := genericCodec_sender hsc h

/-- What a runner is handed in a trace. -/
def handedOver (os : List (Obs C)) : List (String × Arrival × UInt16) := os.filterMap Node.handed

/-- Bob's player is handed Alice's message of the first round. -/
theorem senderIsIndex_of_alice :
    ∃ os n x room a sender, Run Node.step Node.AcceptsOwnIndex (bobsNode keygen nothing) os n ∧
      x ∈ os ∧ Node.handed x = some (room, a, sender) ∧
        ∃ w pk, .received a.origin w ∈ os ∧ SignatureHolds (C := crates keygen) w pk ∧
          w.room = room ∧ n.coordinator.SenderIsIndex room w.senderPublicKey sender := by
  obtain ⟨os, n, hrun, hend⟩ := Run.ofGuardedTest Node.step
    Node.AcceptsOwnIndex (bobsNode keygen nothing) runKeygen
    (fun r => !(handedOver r.2).isEmpty) (by decide +kernel)
  cases hall : handedOver os with
  | nil => simp [hall] at hend
  | cons d ds =>
      obtain ⟨x, hx, hh⟩ := List.mem_filterMap.mp (hall ▸ List.mem_cons_self : d ∈ handedOver os)
      exact ⟨os, n, x, d.1, d.2.1, d.2.2, hrun, hx, hh,
        Node.senderIsIndex_of_handed (senderLaws (by decide +kernel)) hrun hx hh⟩

/-- Alice sends a message in Carol's name. -/
def inCarolsName : GenericProtocolMessage String :=
  { sender := 3, receiver := none, body := keygenBodyText 1 }

/-- Alice posts in Carol's name. -/
def impersonation : Scenario where
  wires := [fromAlice "k1@73ee5cd6c20e0c08d0639e47" inCarolsName]
  messages := [inCarolsName]

/-- Bob's player is handed it as a message of Carol's. -/
theorem not_senderIsIndex_of_impersonation :
    ∃ os n x room a sender, Run Node.step anyStep (bobsNode impersonation nothing) os n ∧
      x ∈ os ∧ Node.handed x = some (room, a, sender) ∧
        ¬ n.coordinator.SenderIsIndex room a.senderPublicKey sender := by
  obtain ⟨os, n, hrun, hend⟩ := Run.ofTest Node.step anyStep
    (bobsNode impersonation nothing)
    [.request (.keygen (keygenOf "k1" [.alice, .bob, .carol] 1)), .mail allWell,
      arrives (fromAlice "k1@73ee5cd6c20e0c08d0639e47" inCarolsName)]
    (fun r => (handedOver r.2).any fun d => decide (d.2.2 = 3) &&
      decide (((r.1.coordinator.storedGroup d.1).bind fun group =>
        group.getIndex d.2.1.senderPublicKey) = some 1))
    (by decide +kernel) (admits_anyStep _ _)
  obtain ⟨d, hd, hp⟩ := List.any_eq_true.mp hend
  obtain ⟨x, hx, hh⟩ := List.mem_filterMap.mp hd
  simp only [Bool.and_eq_true, decide_eq_true_eq] at hp
  refine ⟨os, n, x, d.1, d.2.1, d.2.2, hrun, hx, hh, ?_⟩
  rintro ⟨group, hgroup, hindex⟩
  rw [hgroup, Option.bind_some, hindex, hp.1] at hp
  exact absurd hp.2 (by decide)

end Sample

end MpcServer

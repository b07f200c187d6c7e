import MpcServer.Groups

/-!
# What leaves the server

The coordinator hands the sink a broadcast as it is, a point-to-point message
with its body encrypted to the receiver, and nothing where that fails.
-/

namespace MpcServer

open Rust Rust.Method Machine

variable {C : Crates}

namespace PublicKeyGroup

theorem getPublicKey_of_getElem? {group : PublicKeyGroup} {index : Nat} {key : String}
    (hpos : index ≠ 0) (h : group.publicKeys[index - 1]? = some key) :
    group.getPublicKey index = .ok key := by
  obtain ⟨hlt, hkey⟩ := List.getElem?_eq_some_iff.mp h
  unfold getPublicKey
  split
  · rename_i hrange
    omega
  · rw [← hkey]
    rfl

end PublicKeyGroup

namespace Coordinator

/-- A message leaves unchanged when its payload has no receiver; with a receiver
`j` it leaves with its body replaced by an `Encrypted` object under the `j`-th
key of the group stored for its room. -/
inductive Departs (c : Coordinator C) (amb : Ambient) (msg : CoreMessage) : CoreMessage → Prop
  | broadcast {m} : C.genericMessage.read msg.message = some m → m.receiver = none →
      Departs c amb msg msg
  | encrypted {m j group msg'} : C.genericMessage.read msg.message = some m →
      m.receiver = some j → amb.getOk = true → c.storedGroup msg.room = some group →
      EncryptedTo group.publicKeys m j amb.seed msg msg' → Departs c amb msg msg'

section
variable {c : Coordinator C} {amb : Ambient} {msg msg' : CoreMessage}

theorem departs_of_maybeEncrypt (h : maybeEncrypt c.db amb msg = .ok msg') :
    Departs c amb msg msg' := by
  have hok := h
  simp only [maybeEncrypt, bind_eq_ok, context_eq_ok] at h
  obtain ⟨m, hm, h⟩ := h
  cases hreceiver : m.receiver with
  | none =>
      simp only [hreceiver] at h
      cases h
      exact .broadcast hm hreceiver
  | some j =>
      cases hid : extractGroupId msg.room with
      | error e =>
          cases e
          simp [hreceiver, hid, bind, Except.bind] at h
      | ok groupId =>
          simp only [hreceiver, hid, bind_eq_ok, withContext_eq_ok, Except.ok.injEq,
            exists_eq_left'] at h
          obtain ⟨group, hgroup, -⟩ := h
          obtain ⟨hget, hstored⟩ := storedGroup_of_retrieved hid hgroup
          exact .encrypted hm hreceiver hget hstored
            (encryptedTo_of_maybeEncrypt hget hstored hm hreceiver hok)

theorem maybeEncrypt_of_departs (h : Departs c amb msg msg') :
    maybeEncrypt c.db amb msg = .ok msg' := by
  cases h with
  | broadcast hm hreceiver =>
      simp [maybeEncrypt, hm, hreceiver, bind, Except.bind, pure, Except.pure]
  | @encrypted m j group _ hm hreceiver hget hstored henc =>
      obtain ⟨key, bytes, pk, ciphertext, sealedText, body, text, hpos, hkey, hbytes, hpk,
        hcipher, hsealed, hbody, htext, rfl⟩ := henc
      obtain ⟨groupId, hid, hretrieve⟩ := retrieveGroup_of_stored hget hstored
      have hpublic : group.getPublicKey j.toNat = .ok key :=
        PublicKeyGroup.getPublicKey_of_getElem? (fun h0 => hpos (UInt16.toNat_inj.mp h0)) hkey
      have hsecret : group.encrypt (C := C) amb.seed j.toNat (C.rawValueText m.body) =
          .ok (C.base64Encode ciphertext) := by
        unfold PublicKeyGroup.encrypt
        simp only [hpublic, hbytes, hpk, hcipher, context_some, bind, Except.bind]
        rfl
      rw [hreceiver] at htext
      simp [maybeEncrypt, hm, hreceiver, hid, hretrieve, hsecret, hsealed, hbody, htext, bind,
        Except.bind, pure, Except.pure]

theorem maybeEncrypt_eq_ok : maybeEncrypt c.db amb msg = .ok msg' ↔ Departs c amb msg msg' :=
  ⟨departs_of_maybeEncrypt, maybeEncrypt_of_departs⟩

theorem handleOutgoing_sends (ctx : Ctx) {e : Effect C} :
    e ∈ ((handleOutgoing msg ctx).run c).2.2 ↔
      ∃ msg', e = .send msg' ∧ Departs c ctx.toAmbient msg msg' := by
  simp only [handleOutgoing, run_bind, run_self, ← maybeEncrypt_eq_ok]
  cases maybeEncrypt c.db ctx.toAmbient msg with
  | ok m => simp
  | error text => simp

end

end Coordinator

namespace Node

section
variable {n t : Node C} {e : Event} {o : List (Obs C)} {msg' : CoreMessage}

/-- Only the handler of outgoing mail gives the sink anything. -/
theorem outgoing_of_send (hs : Steps n e t o) (hsend : .effect (.send msg') ∈ o) :
    ∃ amb msg rest, e = .mail amb ∧ n.mailbox = .outgoing msg :: rest := by
  cases hs.turns with
  | idle _ ho => cases ho _ hsend
  | handled he hbox hh _ _ _ ho =>
      rw [ho] at hsend
      cases hh with
      | keygenRequest hk => cases hk <;> simp at hsend
      | signRequest hk => cases hk <;> simp at hsend
      | outgoing _ => exact ⟨_, _, _, he, hbox⟩
      | outputKG hk => cases hk <;> simp at hsend
      | outputO hk => cases hk <;> simp at hsend
      | outputS => simp at hsend

theorem send_mem_takeMail (n : Node C) (msg : CoreMessage) (rest : List (Mail C))
    (amb : Ambient) : .effect (.send msg') ∈ (n.takeMail (.outgoing msg) rest amb).2 ↔
      n.coordinator.Departs amb msg msg' := by
  have hhandle : .effect (.send msg') ∈ (n.takeMail (.outgoing msg) rest amb).2 ↔
      Effect.send msg' ∈ ((Coordinator.handleOutgoing msg (n.ctx amb)).run n.coordinator).2.2 := by
    simp [takeMail, perform, handleMail, Coordinator.handleCoordinatorMessage]
  rw [hhandle, Coordinator.handleOutgoing_sends]
  constructor
  · rintro ⟨m, heq, hdep⟩
    cases heq
    exact hdep
  · intro hdep
    exact ⟨msg', rfl, hdep⟩

/-- **What leaves the server.** In a step of a node the sink is given exactly
what an outgoing message that the coordinator takes up departs as. -/
theorem send_mem_iff (h : n.step e = some (t, o)) :
    .effect (.send msg') ∈ o ↔ ∃ amb msg rest, e = .mail amb ∧
      n.mailbox = .outgoing msg :: rest ∧ n.coordinator.Departs amb msg msg' := by
  have htaken : ∀ amb msg rest, e = .mail amb → n.mailbox = .outgoing msg :: rest →
      (.effect (.send msg') ∈ o ↔ n.coordinator.Departs amb msg msg') := by
    rintro amb msg rest rfl hbox
    obtain ⟨m, rest', hbox', htook⟩ := (step_cases h).mail
    cases hbox.symm.trans hbox'
    cases htook
    exact send_mem_takeMail n msg rest amb
  constructor
  · intro hsend
    obtain ⟨amb, msg, rest, he, hbox⟩ := outgoing_of_send (step_cases h) hsend
    exact ⟨amb, msg, rest, he, hbox, (htaken amb msg rest he hbox).mp hsend⟩
  · rintro ⟨amb, msg, rest, he, hbox, hdep⟩
    exact (htaken amb msg rest he hbox).mpr hdep

end

end Node

namespace Sample

/-- A tree with the group of Alice and Bob. -/
def grouped (key : String) : Option Blob :=
  if key = pairsGroup.groupId then some (.group pairsGroup) else none

/-- A message of Bob's for Alice alone, before and after encryption. -/
def toAlice (body : String) : GenericProtocolMessage String :=
  { sender := 2, receiver := some 1, body }

/-- A message for Alice alone, open and closed. -/
def toAliceAlone : Scenario where
  messages := [toAlice (keygenBodyText 3), toAlice (sealed .alice (keygenBodyText 3))]

/-- It, as a player says it. -/
def outgoingText (m : GenericProtocolMessage String) : CoreMessage :=
  { room := "k1@73ee5cd6c20e0c08", message := messageText m }

/-- What a step gives the sink. -/
def sentMessage {C : Crates} : Obs C → Option CoreMessage
  | .effect (.send m) => some m
  | _ => none

theorem send_mem_of_sentMessage {C : Crates} {os : List (Obs C)} {m : CoreMessage}
    (h : os.filterMap sentMessage = [m]) : .effect (.send m) ∈ os := by
  have hmem : m ∈ os.filterMap sentMessage := h ▸ List.mem_cons_self
  obtain ⟨x, hx, heq⟩ := List.mem_filterMap.mp hmem
  cases x with
  | effect e => cases e <;> cases heq; exact hx
  | _ => cases heq

/-- Bob's node with the message in its mailbox. -/
def aboutToSend : Node (crates toAliceAlone) :=
  { bobsNode toAliceAlone grouped with
    mailbox := [.outgoing (outgoingText (toAlice (keygenBodyText 3)))] }

/-- What Bob tells Alice alone leaves his server under her key. -/
theorem send_mem_toAlice :
    ∃ t o, aboutToSend.step (.mail allWell) = some (t, o) ∧
      aboutToSend.coordinator.Departs allWell (outgoingText (toAlice (keygenBodyText 3)))
        (outgoingText (toAlice (sealed .alice (keygenBodyText 3)))) := by
  have htest : (aboutToSend.step (.mail allWell)).any (fun r => decide
      (r.2.filterMap sentMessage = [outgoingText (toAlice (sealed .alice (keygenBodyText 3)))])) =
        true := by
    decide
  obtain ⟨⟨t, o⟩, hstep, hsent⟩ := (Option.any_eq_true _ _).mp htest
  obtain ⟨amb, msg, rest, he, hbox, hdep⟩ :=
    (Node.send_mem_iff hstep).mp (send_mem_of_sentMessage (of_decide_eq_true hsent))
  cases he
  cases hbox
  exact ⟨t, o, hstep, hdep⟩

end Sample

end MpcServer

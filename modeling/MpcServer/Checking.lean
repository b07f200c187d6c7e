import MpcServer.Actors.Copies
import MpcServer.Groups

/-!
# Checked once, decrypted once

A copy of an envelope waits for its retry as it came from the broker or as the
check left it, and its flag says which. So what a runner is handed, at whatever
attempt, went through the check once: the envelope is of a member of its room's
group, for everybody or for this party, and its body was decrypted once if it
has a receiver and never if it has none.
-/

namespace MpcServer

open Rust Rust.Method Machine

variable {C : Crates}

namespace Coordinator

/-- `a` is the envelope `msg`, opened: a broadcast as it is, a message for this
party with its body decrypted, either from a member of the room's group. -/
inductive Opened (c : Coordinator C) (msg : Arrival) : Arrival → Prop
  | broadcast {group m} : c.storedGroup msg.room = some group →
      msg.senderPublicKey ∈ group.publicKeys →
      C.genericMessage.read msg.payload = some m → m.receiver = none → Opened c msg msg
  | addressed {group m i encrypted plaintext body text} : c.storedGroup msg.room = some group →
      msg.senderPublicKey ∈ group.publicKeys →
      C.genericMessage.read msg.payload = some m → m.receiver = some i → group.getI = .ok i →
      C.encrypted.read (C.rawValueText m.body) = some encrypted →
      PublicKeyGroup.decrypt (C := C) c.sk encrypted.encrypted = .ok plaintext →
      C.rawValueFromString plaintext = some body →
      C.genericMessage.write { m with body } = some text →
      Opened c msg { msg with payload := text }

theorem opened_of_passes {c : Coordinator C} {amb : Ambient} {msg a : Arrival}
    (h : Passes c amb msg a) : Opened c msg a := by
  obtain ⟨hvalid, hdec⟩ := h
  obtain ⟨group, m, hgroup, hmember, hm, hreceiver⟩ := validSenderAndReceiver_eq_ok hvalid
  simp only [maybeDecrypt, hm, context_some, bind_eq_ok, Except.ok.injEq, exists_eq_left'] at hdec
  cases hr : m.receiver with
  | none =>
      rw [hr] at hdec
      cases hdec
      exact .broadcast hgroup hmember hm hr
  | some j =>
      simp only [hr, bind_eq_ok, context_eq_ok, withContext_eq_ok] at hdec
      obtain ⟨encrypted, henc, plaintext, hplain, body, hbody, text, htext, hdec⟩ := hdec
      cases hdec
      exact .addressed hgroup hmember hm hr (hreceiver j hr) henc hplain hbody (hr ▸ htext)

end Coordinator

namespace Node

/-! ## Copies that were not checked, and copies that were -/

/-- The copy is an envelope as it came from the broker. -/
def AsReceived (os : List (Obs C)) (a : Arrival) : Prop :=
  .received a.origin a.toWireMessage ∈ os

/-- The copy was checked in the run, at one step of it, which put its envelope
before the check as it had come from the broker and opened it into this copy. -/
inductive CheckedOnce (n₀ : Node C) (os : List (Obs C)) (a : Arrival) : Prop
  | intro {os₁ o os₂ n t e msg amb} : os = os₁ ++ o ++ os₂ → Run step anyStep n₀ os₁ n →
      n.step e = some (t, o) → n.checkedAt e = some (msg, amb) → AsReceived (os₁ ++ o) msg →
      Coordinator.Passes n.coordinator amb msg a → Coordinator.Opened n.coordinator msg a →
      CheckedOnce n₀ os a

section
variable {n₀ : Node C} {os os' : List (Obs C)} {a : Arrival}

theorem AsReceived.append (h : AsReceived os a) : AsReceived (os ++ os') a :=
  List.mem_append_left _ h

theorem CheckedOnce.append (h : CheckedOnce n₀ os a) : CheckedOnce n₀ (os ++ os') a := by
  cases h with
  | @intro os₁ o os₂ _ _ _ _ _ hos hrun hs hchecked hreceived hp hopened =>
      have happend : os ++ os' = os₁ ++ o ++ (os₂ ++ os') := by rw [hos, List.append_assoc]
      exact .intro happend hrun hs hchecked hreceived hp hopened

variable (n₀) in
/-- What arrives is as received, and the step that passes it checks it. -/
theorem checkedCopies : CopyLaws anyStep n₀ (fun os _ a => AsReceived os a)
    (fun os _ a => CheckedOnce n₀ os a) where
  raw _ _ _ ha := ha.append
  vetted _ _ _ ha := ha.append
  received _ _ _ hmem := List.mem_append_right _ hmem
  passed hrun _ hs hchecked hraw hp :=
    .intro (List.append_nil _).symm hrun hs hchecked hraw hp (Coordinator.opened_of_passes hp)

end

/-- **Checked once, decrypted once.** A retry that waits unchecked carries an
envelope as it came from the broker; a checked one, and whatever a runner is
handed, carries an envelope that some step of the run has checked as it came
from the broker and opened then, once. -/
theorem checkedOnce_of_run {sk : C.SecretKey} {db : Tree C} {os : List (Obs C)} {n : Node C}
    (hrun : Run step anyStep (init sk db) os n) :
    (∀ m, m ∈ n.timers ∨ m ∈ n.notified →
      (m.checkPassed = false → AsReceived os m.message) ∧
        (m.checkPassed = true → CheckedOnce (init sk db) os m.message)) ∧
      ∀ x ∈ os, ∀ a, handedCopy x = some a → Delivers a x ∧ CheckedOnce (init sk db) os a := by
  have hlaws := checkedCopies (init sk db)
  refine ⟨fun m hm => flagged_of_pending hlaws hrun hm, fun x hx a ha => ?_⟩
  exact (known_of_run hlaws hrun x hx).delivered a ha

end Node

namespace Sample

/-- Alice's message comes before the group is known, comes for a room without a
runner, and comes in time. -/
def earlyAndLate : Scenario where
  keygenRounds := 1
  wires := [fromAlice "k1@73ee5cd6c20e0c08"
      { sender := 1, receiver := none, body := keygenBodyText 1 },
    fromAlice "k2@73ee5cd6c20e0c08"
      { sender := 1, receiver := none, body := keygenBodyText 1 }]
  messages := [{ sender := 1, receiver := none, body := keygenBodyText 1 }]

/-- Two copies wait, one of each kind, and a third was handed to the player. -/
theorem checkedOnce_of_earlyAndLate :
    ∃ os n early late x a, Run Node.step anyStep (bobsNode earlyAndLate nothing) os n ∧
      early ∈ n.timers ∧ early.checkPassed = false ∧ late ∈ n.timers ∧
      late.checkPassed = true ∧ x ∈ os ∧ Node.handedCopy x = some a ∧
      Node.AsReceived os early.message ∧
      Node.CheckedOnce (bobsNode earlyAndLate nothing) os late.message ∧
      Node.Delivers a x ∧ Node.CheckedOnce (bobsNode earlyAndLate nothing) os a := by
  obtain ⟨os, n, hrun, hend⟩ := Run.ofTest Node.step anyStep (bobsNode earlyAndLate nothing)
    [arrives (fromAlice "k1@73ee5cd6c20e0c08"
        { sender := 1, receiver := none, body := keygenBodyText 1 }),
      .request (.keygen (keygenOf "k1" [.alice, .bob] 1)), .mail allWell,
      arrives (fromAlice "k2@73ee5cd6c20e0c08"
        { sender := 1, receiver := none, body := keygenBodyText 1 }),
      arrives (fromAlice "k1@73ee5cd6c20e0c08"
        { sender := 1, receiver := none, body := keygenBodyText 1 })]
    (fun r => r.1.timers.any (fun m => !m.checkPassed) && r.1.timers.any (·.checkPassed) &&
      !(r.2.filterMap Node.handedCopy).isEmpty) (by decide +kernel) (admits_anyStep _ _)
  simp only [Bool.and_eq_true, List.any_eq_true, Bool.not_eq_true'] at hend
  obtain ⟨⟨⟨early, hearly, hraw⟩, late, hlate, hpassed⟩, hhanded⟩ := hend
  obtain ⟨hpending, hdelivered⟩ := Node.checkedOnce_of_run hrun
  cases hall : os.filterMap Node.handedCopy with
  | nil => simp [hall] at hhanded
  | cons a as =>
      obtain ⟨x, hx, ha⟩ := List.mem_filterMap.mp (hall ▸ List.mem_cons_self)
      obtain ⟨hd, hc⟩ := hdelivered x hx a ha
      exact ⟨os, n, early, late, x, a, hrun, hearly, hraw, hlate, hpassed, hx, ha,
        (hpending early (.inl hearly)).1 hraw, (hpending late (.inl hlate)).2 hpassed, hd, hc⟩

end Sample

end MpcServer

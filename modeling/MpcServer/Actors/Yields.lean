import MpcServer.Lib.Tally
import MpcServer.Actors.Identities
import MpcServer.Actors.SignerRun

/-!
# One output a runner

A state machine that yields its output once makes a player that does, and a
signer tries to complete once. What a runner can still yield is a number, one
or zero, and every call pays for its outputs out of it.
-/

namespace MpcServer

open Rust Rust.Method

variable {C : Crates}

/-! ## State machines -/

section
variable {SM β ε ο : Type} [StateMachine SM β ε ο]

/-- Operations lead from one state to another, and `pick_output` yields `n`
outputs on the way. -/
inductive Evolves (k : SM) : Nat → SM → Prop
  | refl : Evolves k 0 k
  | handled {n k'} (m : Msg β) : Evolves k n k' →
      Evolves k n (StateMachine.handleIncoming k' m).2
  | drained {n k'} : Evolves k n k' → Evolves k n (StateMachine.drainQueue k')
  | proceeded {n k'} : Evolves k n k' → Evolves k n (StateMachine.proceed k').2
  | yielded {n k' o} : Evolves k n k' → (StateMachine.pickOutput k').1 = some (.ok o) →
      Evolves k (n + 1) (StateMachine.pickOutput k').2
  | picked {n k'} : Evolves k n k' → (∀ o, (StateMachine.pickOutput k').1 ≠ some (.ok o)) →
      Evolves k n (StateMachine.pickOutput k').2

theorem Evolves.trans {k k' k'' : SM} {n m : Nat} (h : Evolves k n k') (h' : Evolves k' m k'') :
    Evolves k (n + m) k'' := by
  induction h' with
  | refl => exact h
  | handled msg _ ih => exact .handled msg ih
  | drained _ ih => exact .drained ih
  | proceeded _ ih => exact .proceeded ih
  | yielded _ ho ih => exact .yielded ih ho
  | picked _ ho ih => exact .picked ih ho

variable (SM) in
/-- The output is yielded once, whatever else the machine is asked to do. -/
def YieldsOnce : Prop := ∀ (k k' : SM) (n : Nat), Evolves k n k' → n ≤ 1

open Classical in
/-- How many outputs a state can still yield. -/
noncomputable def yieldsLeft (k : SM) : Nat := if ∃ k', Evolves k 1 k' then 1 else 0

theorem yieldsLeft_le (k : SM) : yieldsLeft k ≤ 1 := by
  unfold yieldsLeft
  split <;> decide

/-- Outputs are paid for. -/
theorem Evolves.yieldsLeft_le (honce : YieldsOnce SM) {k k' : SM} {n : Nat} (h : Evolves k n k') :
    n + yieldsLeft k' ≤ yieldsLeft k := by
  have hn := honce k k' n h
  have hone : ∀ k'', Evolves k 1 k'' → yieldsLeft k = 1 := fun k'' h'' => if_pos ⟨k'', h''⟩
  by_cases hleft : ∃ k'', Evolves k' 1 k''
  · -- another output can come, so none has
    obtain ⟨k'', h'⟩ := hleft
    have hsum := honce k k'' (n + 1) (h.trans h')
    obtain rfl : n = 0 := by omega
    have hk' : yieldsLeft k' = 1 := if_pos ⟨k'', h'⟩
    rw [hk', hone k'' (by simpa using h.trans h')]
  · have hk' : yieldsLeft k' = 0 := if_neg hleft
    rw [hk', Nat.add_zero]
    rcases Nat.lt_or_ge n 1 with hzero | hpos
    · omega
    · obtain rfl : n = 1 := by omega
      rw [hone k' h]

end

/-! ## Players -/

namespace MpcPlayer

variable {I SM β ε ο : Type} [StateMachine SM β ε ο]

/-- An output is what the coordinator waits for. -/
def isOutput : PlayerSend I β ε ο → Bool
  | .output _ => true
  | _ => false

/-- The state machine evolves and yields the outputs that are sent. -/
def Evolution (p : MpcPlayer I SM) (sends : List (PlayerSend I β ε ο)) (q : MpcPlayer I SM) :
    Prop :=
  Evolves p.state (sends.countP isOutput) q.state

theorem evolution_composes :
    Composes (σ := MpcPlayer I SM) (ω := PlayerSend I β ε ο) Evolution where
  refl p := .refl
  trans h h' := by
    unfold Evolution
    rw [List.countP_append]
    exact h.trans h'

theorem sendError_follows (e : ε) (m : IncomingMessage (Msg β)) :
    Follows Evolution (sendError e m : Call I SM β ε ο Unit) := fun _ => .refl

theorem handleIncoming_follows (m : IncomingMessage (Msg β)) :
    Follows Evolution (handleIncoming m : Call I SM β ε ο Unit) := by
  intro p
  unfold handleIncoming
  simp only [run_bind, run_self, run_modify]
  split <;> exact .handled m.message .refl

theorem proceedIfNeeded_follows :
    Follows Evolution (proceedIfNeeded : Call I SM β ε ο Unit) := by
  intro p
  unfold proceedIfNeeded
  simp only [run_bind, run_self]
  split
  · simp only [run_bind, run_modify]
    split <;> exact .proceeded .refl
  · exact .refl

theorem sendOutgoing_follows (codec : Serde (Msg β) String) :
    Follows Evolution (sendOutgoing codec : Call I SM β ε ο Unit) := by
  intro p
  have hnone : ∀ texts : List String, (texts.map fun message =>
      (.outgoing { room := p.room, message } : PlayerSend I β ε ο)).countP isOutput = 0 := by
    intro texts
    refine List.countP_eq_zero.mpr fun s hs => ?_
    obtain ⟨text, -, rfl⟩ := List.mem_map.mp hs
    simp [isOutput]
  unfold sendOutgoing Evolution
  simp only [run_bind, run_self, run_modify, run_emitAll, List.nil_append, hnone]
  exact .drained .refl

theorem refreshTimer_follows (now : Nat) :
    Follows Evolution (refreshTimer now : Call I SM β ε ο Unit) := by
  intro p
  unfold refreshTimer
  simp only [run_bind, run_self]
  split <;> exact .refl

theorem finishIfPossible_follows :
    Follows Evolution (finishIfPossible : Call I SM β ε ο Unit) := by
  intro p
  unfold finishIfPossible
  simp only [run_bind, run_self]
  split
  · simp only [run_bind, run_modify]
    split
    · rename_i result hpick
      exact .yielded .refl hpick
    · rename_i e hpick
      exact .picked .refl fun o h => by cases hpick.symm.trans h
    · rename_i hpick
      exact .picked .refl fun o h => by cases hpick.symm.trans h
  · exact .refl

theorem maybeProceed_follows (codec : Serde (Msg β) String) (now : Nat) :
    Follows Evolution (maybeProceed codec now : Call I SM β ε ο Unit) := by
  have hR : Composes (σ := MpcPlayer I SM) (ω := PlayerSend I β ε ο) Evolution :=
    evolution_composes
  exact follows_bind hR (sendOutgoing_follows codec) fun _ =>
    follows_bind hR (refreshTimer_follows now) fun _ =>
    follows_bind hR proceedIfNeeded_follows fun _ =>
    follows_bind hR (sendOutgoing_follows codec) fun _ =>
    follows_bind hR (refreshTimer_follows now) fun _ =>
    follows_bind hR (follows_attempt finishIfPossible_follows) fun _ => follows_pure hR _

theorem handle_follows (checks : Bool) (codec : Serde (Msg β) String) (now : Nat)
    (m : IncomingMessage (Msg β)) :
    Follows Evolution (handle checks codec now m : Call I SM β ε ο Unit) := by
  have hR : Composes (σ := MpcPlayer I SM) (ω := PlayerSend I β ε ο) Evolution :=
    evolution_composes
  refine follows_bind hR (follows_self hR) fun p => follows_ite (fun _ => follows_pure hR _) fun _ => ?_
  refine follows_ite (fun _ => ?_) fun _ => follows_pure hR _
  refine follows_bind hR (follows_orPanic hR _) fun n => ?_
  refine follows_bind hR (follows_modify fun p => .refl) fun _ => ?_
  refine follows_bind hR (handleIncoming_follows m) fun _ => ?_
  refine follows_bind hR (follows_attempt (maybeProceed_follows codec now)) fun r => ?_
  split
  · exact follows_pure hR _
  · exact sendError_follows _ m

theorem tick_follows (codec : Serde (Msg β) String) (now : Nat) :
    Follows Evolution (tick codec now : Call I SM β ε ο Unit) := by
  have hR : Composes (σ := MpcPlayer I SM) (ω := PlayerSend I β ε ο) Evolution :=
    evolution_composes
  refine follows_bind hR (follows_self hR) fun p => follows_ite (fun _ => ?_) fun _ =>
    follows_pure hR _
  exact follows_bind hR (follows_attempt (maybeProceed_follows codec now)) fun _ =>
    follows_pure hR _

end MpcPlayer

/-! ## Signers -/

namespace Signer

/-- An output is what the coordinator waits for. -/
def isOutput : SignerSend C → Bool
  | .output _ => true
  | _ => false

/-- A signer can complete as long as it is short of partial signatures. -/
def yieldsLeft (s : Signer C) : Nat := if s.partialSigs.length < s.task.t then 1 else 0

theorem yieldsLeft_le (s : Signer C) : s.yieldsLeft ≤ 1 := by
  unfold yieldsLeft
  split <;> decide

theorem verdict_outputs_le (s : Signer C) :
    s.verdict.countP isOutput ≤ if s.partialSigs.length = s.task.t then 1 else 0 := by
  unfold verdict
  split
  · exact Nat.zero_le _
  · by_cases hlen : s.partialSigs.length = s.task.t
    · rw [if_pos hlen, if_pos hlen]
      split <;> exact List.countP_le_length
    · rw [if_neg hlen, if_neg hlen]
      exact Nat.le_refl _

/-- A signer completes at its `t`-th partial signature, if it does. -/
theorem handle_yields (s : Signer C) (m : IncomingS C) :
    ((handle m).run s).2.2.countP isOutput + ((handle m).run s).2.1.yieldsLeft ≤ s.yieldsLeft := by
  rw [handle_run]
  split
  · simp
  · have hle := verdict_outputs_le (s.push m.message.body)
    simp only [push_partialSigs, push_task, List.length_append, List.length_singleton] at hle
    simp only [yieldsLeft, push_partialSigs, push_task, List.length_append,
      List.length_singleton]
    split at hle <;> split <;> split <;> omega

end Signer

namespace Node

/-! ## Calls -/

/-- What the authors of the two state machines promise. -/
structure YieldOnce (C : Crates) : Prop where
  keygen : YieldsOnce C.Keygen
  offline : YieldsOnce C.OfflineStage

theorem callKG_yields (h : YieldOnce C) (p : PlayerKG C) (now : Nat)
    (msg : Option (IncomingKG C)) :
    (callKG p now msg).2.2.countP MpcPlayer.isOutput + yieldsLeft (callKG p now msg).2.1.state ≤
      yieldsLeft p.state := by
  refine Evolves.yieldsLeft_le h.keygen ?_
  cases msg with
  | none => exact MpcPlayer.tick_follows C.msgKG now p
  | some m => exact MpcPlayer.handle_follows C.overflowChecks C.msgKG now m p

theorem callO_yields (h : YieldOnce C) (p : PlayerO C) (now : Nat) (msg : Option (IncomingO C)) :
    (callO p now msg).2.2.countP MpcPlayer.isOutput + yieldsLeft (callO p now msg).2.1.state ≤
      yieldsLeft p.state := by
  refine Evolves.yieldsLeft_le h.offline ?_
  cases msg with
  | none => exact MpcPlayer.tick_follows C.msgO now p
  | some m => exact MpcPlayer.handle_follows C.overflowChecks C.msgO now m p

theorem callS_yields (s : Signer C) (msg : Option (IncomingS C)) :
    (callS s msg).2.2.countP Signer.isOutput + (callS s msg).2.1.yieldsLeft ≤ s.yieldsLeft := by
  cases msg with
  | some m => exact Signer.handle_yields s m
  | none =>
      obtain ⟨sends, hrun, hsends⟩ := s.started_run
      have hnone : sends.countP Signer.isOutput = 0 := by
        obtain rfl | ⟨m, rfl⟩ := hsends <;> rfl
      simp only [callS, hrun, hnone]
      omega

end Node

end MpcServer

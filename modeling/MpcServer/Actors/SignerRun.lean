import Mathlib.Data.List.Perm.Subperm
import Mathlib.Data.List.Infix
import MpcServer.Actors.Signer
import MpcServer.Sample

/-!
# What a signer makes of its messages

The signer counts what it is sent and tries to complete at the `t`-th push,
once. Whether a signature comes out is decided by the first `t` messages of
other senders, whoever they are from; the ones behind them change nothing.
-/

namespace MpcServer

open Rust Rust.Method

variable {C : Crates}

namespace Signer

/-! ## One message -/

/-- What `finish_if_possible` sends from a signer. -/
def verdict (s : Signer C) : List (SignerSend C) :=
  match C.signManualNew s.task.message s.task.completedOfflineStage with
  | none => [.failed]
  | some (state, _) =>
      if s.partialSigs.length = s.task.t then
        match C.complete state s.partialSigs with
        | some signature => [.output { input := s.input, output := signature }]
        | none => [.failed]
      else []

/-- The signer with one part more. -/
def push (s : Signer C) (sig : C.PartialSignature) : Signer C :=
  { s with partialSigs := s.partialSigs ++ [sig] }

@[simp] theorem push_input (s : Signer C) (sig : C.PartialSignature) :
    (s.push sig).input = s.input := rfl

@[simp] theorem push_task (s : Signer C) (sig : C.PartialSignature) :
    (s.push sig).task = s.task := rfl

@[simp] theorem push_partialSigs (s : Signer C) (sig : C.PartialSignature) :
    (s.push sig).partialSigs = s.partialSigs ++ [sig] := rfl

/-- A signer that starts sends its own part out, or nothing. -/
theorem started_run (s : Signer C) : ∃ sends, started.run s = (.ok (), s, sends) ∧
    (sends = [] ∨ ∃ m, sends = [.outgoing m]) := by
  unfold started sendMyPartialSignature
  simp only [run_bind, run_attempt, run_self]
  cases C.signManualNew s.task.message s.task.completedOfflineStage with
  | none => exact ⟨_, rfl, .inl rfl⟩
  | some x =>
      simp only [context_some, run_question_ok]
      cases C.msgS.write { sender := s.task.index, receiver := none, body := x.2 } with
      | none => exact ⟨_, rfl, .inl rfl⟩
      | some message => exact ⟨_, rfl, .inr ⟨_, rfl⟩⟩

theorem attempt_finishIfPossible_run (s : Signer C) :
    ∃ r, (attempt (δ := String) finishIfPossible).run s = (.ok r, s, verdict s) := by
  unfold finishIfPossible verdict
  simp only [run_attempt, run_bind, run_self]
  cases C.signManualNew s.task.message s.task.completedOfflineStage with
  | none => exact ⟨_, rfl⟩
  | some state =>
      by_cases hlen : s.partialSigs.length = s.task.t
      · simp only [if_pos hlen]
        cases C.complete state.1 s.partialSigs <;> exact ⟨_, rfl⟩
      · simp only [if_neg hlen]
        exact ⟨_, rfl⟩

/-- An own message is skipped, any other is pushed and followed by an attempt. -/
theorem handle_run (s : Signer C) (m : IncomingS C) :
    (handle m).run s =
      if m.message.sender = s.task.index then (.ok (), s, [])
      else (.ok (), s.push m.message.body, (s.push m.message.body).verdict) := by
  obtain ⟨r, hr⟩ := attempt_finishIfPossible_run (s.push m.message.body)
  unfold handle
  simp only [run_bind, run_self]
  by_cases hown : m.message.sender = s.task.index
  · simp [hown]
  · simp only [if_neg hown, run_bind, run_modify]
    rw [show ({ s with partialSigs := s.partialSigs ++ [m.message.body] } : Signer C) =
      s.push m.message.body from rfl, hr]
    simp

/-! ## A sequence of messages -/

/-- Feed a signer one message after the other, collecting what it sends. -/
def feed (s : Signer C) : List (IncomingS C) → Signer C × List (SignerSend C)
  | [] => (s, [])
  | m :: ms =>
      let r := (handle m).run s
      ((r.2.1.feed ms).1, r.2.2 ++ (r.2.1.feed ms).2)

/-- The signature in what was sent. -/
def outputOf : SignerSend C → Option (ProtocolOutput EnrichedSignRequest C.SignatureRecid)
  | .output out => some out
  | _ => none

/-- The outputs among what a signer sends while it is fed. -/
def outputs (s : Signer C) (ms : List (IncomingS C)) :
    List (ProtocolOutput EnrichedSignRequest C.SignatureRecid) :=
  (s.feed ms).2.filterMap outputOf

/-- The partial signatures of the messages a signer does not skip. -/
def pushed (s : Signer C) (ms : List (IncomingS C)) : List C.PartialSignature :=
  (ms.filter fun m => m.message.sender ≠ s.task.index).map (·.message.body)

theorem pushed_cons_own {s : Signer C} {m : IncomingS C} (ms : List (IncomingS C))
    (h : m.message.sender = s.task.index) : s.pushed (m :: ms) = s.pushed ms := by
  simp [pushed, h]

theorem pushed_cons_other {s : Signer C} {m : IncomingS C} (ms : List (IncomingS C))
    (h : m.message.sender ≠ s.task.index) :
    s.pushed (m :: ms) = m.message.body :: s.pushed ms := by
  simp [pushed, h]

theorem pushed_mono (s : Signer C) {p ms : List (IncomingS C)} (h : p <+: ms) :
    s.pushed p <+: s.pushed ms :=
  (h.filter _).map _

/-- What comes out of exactly `t` partial signatures. -/
def assembled (s : Signer C) (state : C.SignManual) (sigs : List C.PartialSignature) :
    List (ProtocolOutput EnrichedSignRequest C.SignatureRecid) :=
  (C.complete state sigs).toList.map fun signature => { input := s.input, output := signature }

theorem outputs_verdict {s : Signer C} {state : C.SignManual} {own : C.PartialSignature}
    (hnew : C.signManualNew s.task.message s.task.completedOfflineStage = some (state, own)) :
    s.verdict.filterMap outputOf =
      if s.partialSigs.length = s.task.t then s.assembled state s.partialSigs else [] := by
  unfold verdict assembled
  simp only [hnew]
  split
  · cases C.complete state s.partialSigs <;> rfl
  · rfl

/-- **The first `t` decide.** A signer that already holds some signatures puts
out what the first `t` of all its pushes assemble to, when it gets that far
and had not got there before. -/
theorem outputs_eq {s : Signer C} {state : C.SignManual} {own : C.PartialSignature}
    (hnew : C.signManualNew s.task.message s.task.completedOfflineStage = some (state, own))
    (ms : List (IncomingS C)) :
    s.outputs ms =
      if s.partialSigs.length < s.task.t ∧
          s.task.t ≤ s.partialSigs.length + (s.pushed ms).length then
        s.assembled state ((s.partialSigs ++ s.pushed ms).take s.task.t)
      else [] := by
  induction ms generalizing s with
  | nil =>
      rw [if_neg (by simp only [pushed, List.filter_nil, List.map_nil, List.length_nil]; omega)]
      rfl
  | cons m ms ih =>
      by_cases hown : m.message.sender = s.task.index
      · have hstep : s.outputs (m :: ms) = s.outputs ms := by
          simp [outputs, feed, handle_run, hown]
        rw [hstep, pushed_cons_own ms hown, ih hnew]
      · have hstep : s.outputs (m :: ms) =
            (s.push m.message.body).verdict.filterMap outputOf ++
              (s.push m.message.body).outputs ms := by
          simp [outputs, feed, handle_run, hown]
        have hnew' : C.signManualNew (s.push m.message.body).task.message
            (s.push m.message.body).task.completedOfflineStage = some (state, own) := hnew
        have hsame : (s.push m.message.body).pushed ms = s.pushed ms := rfl
        have hasm : (s.push m.message.body).assembled state = s.assembled state := rfl
        rw [hstep, outputs_verdict hnew', ih hnew', pushed_cons_other ms hown, hsame, hasm]
        simp only [push_partialSigs, push_task, List.length_append, List.length_cons,
          List.length_nil, List.append_assoc, List.singleton_append]
        -- either this part completes the number, or it is one of those before
        by_cases hnow : s.partialSigs.length + (0 + 1) = s.task.t
        · have htake : (s.partialSigs ++ m.message.body :: s.pushed ms).take s.task.t =
              s.partialSigs ++ [m.message.body] := by
            rw [List.append_cons, List.take_left']
            rw [List.length_append, List.length_singleton]
            omega
          rw [if_pos hnow, if_neg (by omega), if_pos (by omega), List.append_nil, htake]
        · rw [if_neg hnow, List.nil_append]
          by_cases hrest : s.partialSigs.length < s.task.t ∧
              s.task.t ≤ s.partialSigs.length + ((s.pushed ms).length + 1)
          · rw [if_pos hrest, if_pos (by omega)]
          · rw [if_neg hrest, if_neg (by omega)]

/-- A fresh signer. -/
theorem outputs_new {s : Signer C} {state : C.SignManual} {own : C.PartialSignature}
    (hnew : C.signManualNew s.task.message s.task.completedOfflineStage = some (state, own))
    (hfresh : s.partialSigs = []) (ms : List (IncomingS C)) :
    s.outputs ms =
      if s.task.t ≠ 0 ∧ s.task.t ≤ (s.pushed ms).length then
        s.assembled state ((s.pushed ms).take s.task.t)
      else [] := by
  rw [outputs_eq hnew, hfresh]
  simp only [List.length_nil, List.nil_append, Nat.zero_add, Nat.pos_iff_ne_zero]

/-! ## When the signature comes out -/

/-- The setting: the signer is fresh, its task counts the other participants,
`SignManual::new` succeeds, and `complete` succeeds on the lists that hold one
valid partial signature of every other participant and on no others. -/
structure Expects (s : Signer C) (others : List UInt16)
    (valid : UInt16 → C.PartialSignature → Prop) : Prop where
  fresh : s.partialSigs = []
  distinct : others.Nodup
  notOwn : s.task.index ∉ others
  count : others.length = s.task.t
  completes : ∃ state own,
    C.signManualNew s.task.message s.task.completedOfflineStage = some (state, own) ∧
    ∀ sigs, (C.complete state sigs).isSome ↔ ∃ js, js.Perm others ∧ List.Forall₂ valid js sigs

/-- A valid partial signature of every other participant is among the messages. -/
def AllArrived (others : List UInt16) (valid : UInt16 → C.PartialSignature → Prop)
    (ms : List (IncomingS C)) : Prop :=
  ∀ j ∈ others, ∃ m ∈ ms, m.message.sender = j ∧ valid j m.message.body

/-- At most one output, and one as soon as everybody's valid signature is in. -/
def SignsOnce (s : Signer C) (others : List UInt16)
    (valid : UInt16 → C.PartialSignature → Prop) (ms : List (IncomingS C)) : Prop :=
  (s.outputs ms).length ≤ 1 ∧
    ∀ p, p <+: ms → AllArrived others valid p → s.outputs p ≠ []

/-- The first `t` messages of other senders are one valid signature each. -/
def FirstAreGood (s : Signer C) (others : List UInt16)
    (valid : UInt16 → C.PartialSignature → Prop) (ms : List (IncomingS C)) : Prop :=
  ∃ js, js.Perm others ∧ List.Forall₂ valid js ((s.pushed ms).take s.task.t)

variable {s : Signer C} {others : List UInt16} {valid : UInt16 → C.PartialSignature → Prop}

theorem AllArrived.mono {p ms : List (IncomingS C)} (h : AllArrived others valid p)
    (hp : p <+: ms) : AllArrived others valid ms := fun j hj => by
  obtain ⟨m, hm, hj⟩ := h j hj
  exact ⟨m, hp.subset hm, hj⟩

/-- When everybody is in, at least `t` messages were pushed. -/
theorem le_length_pushed (he : s.Expects others valid) {ms : List (IncomingS C)}
    (h : AllArrived others valid ms) : s.task.t ≤ (s.pushed ms).length := by
  have hsub : others ⊆
      (ms.filter fun m => m.message.sender ≠ s.task.index).map (·.message.sender) := by
    intro j hj
    obtain ⟨m, hm, rfl, -⟩ := h j hj
    have hne : m.message.sender ≠ s.task.index := fun heq => he.notOwn (heq ▸ hj)
    exact List.mem_map.mpr ⟨m, by simp [hm, hne], rfl⟩
  have hlen := (List.subperm_of_subset he.distinct hsub).length_le
  rw [he.count] at hlen
  simpa [pushed] using hlen

theorem outputs_length_le (he : s.Expects others valid) (ms : List (IncomingS C)) :
    (s.outputs ms).length ≤ 1 := by
  obtain ⟨state, own, hnew, -⟩ := he.completes
  rw [outputs_new hnew he.fresh]
  split
  · cases h : C.complete state ((s.pushed ms).take s.task.t) <;> simp [assembled, h]
  · simp

/-- An output has come when, and only when, `t` messages are in and the first
`t` are good. -/
theorem outputs_ne_nil_iff (he : s.Expects others valid) (ms : List (IncomingS C)) :
    s.outputs ms ≠ [] ↔
      s.task.t ≠ 0 ∧ s.task.t ≤ (s.pushed ms).length ∧ s.FirstAreGood others valid ms := by
  obtain ⟨state, own, hnew, hcomplete⟩ := he.completes
  have hgood : s.FirstAreGood others valid ms ↔
      (C.complete state ((s.pushed ms).take s.task.t)).isSome := (hcomplete _).symm
  rw [outputs_new hnew he.fresh, hgood]
  split
  · rename_i hin
    cases h : C.complete state ((s.pushed ms).take s.task.t) <;> simp [assembled, h, hin]
  · rename_i hout
    simp only [ne_eq, not_true_eq_false, false_iff]
    exact fun ⟨h0, hlen, _⟩ => hout ⟨h0, hlen⟩

/-- The messages behind the first `t` pushes do not matter. -/
theorem firstAreGood_of_take {p ms : List (IncomingS C)} (hp : p <+: ms)
    (hlen : s.task.t ≤ (s.pushed p).length) :
    s.FirstAreGood others valid p ↔ s.FirstAreGood others valid ms := by
  obtain ⟨rest, hrest⟩ := s.pushed_mono hp
  have htake : (s.pushed ms).take s.task.t = (s.pushed p).take s.task.t := by
    rw [← hrest, List.take_append_of_le_length hlen]
  unfold FirstAreGood
  rw [htake]

/-- **When a signer does what it should.** There is somebody to wait for, and
either the first `t` messages of others are one valid signature each, or some
participant's valid signature never comes. A duplicate, a replay or a bad
signature among the first `t` ends the signature for good. -/
theorem signsOnce_iff (he : s.Expects others valid) (ms : List (IncomingS C)) :
    s.SignsOnce others valid ms ↔
      s.task.t ≠ 0 ∧
        (s.FirstAreGood others valid ms ∨
          ∃ j ∈ others, ∀ m ∈ ms, m.message.sender = j → ¬ valid j m.message.body) := by
  have hmissing : (∃ j ∈ others, ∀ m ∈ ms, m.message.sender = j → ¬ valid j m.message.body) ↔
      ¬ AllArrived others valid ms := by
    simp only [AllArrived, not_forall, not_exists, not_and, exists_prop]
  rw [hmissing]
  constructor
  · rintro ⟨-, hsoon⟩
    refine ⟨fun h0 => ?_, ?_⟩
    · have hnone : others = [] := List.length_eq_zero_iff.mp (he.count.trans h0)
      have hnow := hsoon [] (List.nil_prefix) (by simp [AllArrived, hnone])
      exact hnow rfl
    · by_cases hall : AllArrived others valid ms
      · have hout := hsoon ms (List.prefix_refl ms) hall
        exact .inl ((outputs_ne_nil_iff he ms).mp hout).2.2
      · exact .inr hall
  · rintro ⟨h0, hcase⟩
    refine ⟨outputs_length_le he ms, fun p hp hall => ?_⟩
    have hlen := le_length_pushed he hall
    have hgood : s.FirstAreGood others valid ms :=
      hcase.resolve_right fun hnot => hnot (hall.mono hp)
    exact (outputs_ne_nil_iff he p).mpr ⟨h0, hlen, (firstAreGood_of_take hp hlen).mpr hgood⟩

end Signer

/-! ## Three participants, and a replay -/

namespace Sample

open Signer

/-- The signer of the first of three participants. -/
def firstOfThree : Signer (crates {}) :=
  Signer.new
    { inner :=
        { requestId := "s1", participantPublicKeys := [Party.alice, .bob, .carol].map Party.keyText
          publicKey := "", hash := "2a" }
      room := "s1@73ee5cd6c20e0c08d0639e47", i := 1, sL := [1, 2, 3] }
    { room := "s1@73ee5cd6c20e0c08d0639e47", index := 1, t := 2, message := (42 : Nat)
      completedOfflineStage := ({ i := 1, n := 3 } : CompletedOfflineStage) }

/-- The good part of the party `p`, of index `j`, as a signer of the three is handed it. -/
def partialSigOf (j : UInt16) (p : Party) : IncomingS (crates {}) :=
  let body : PartialSignature := { signer := j, good := true }
  let payload := messageText { sender := j, receiver := none, body := partialSigText body }
  { room := firstOfThree.task.room
    wireMessage :=
      { room := firstOfThree.task.room, payload, senderPublicKey := p.keyText
        signature := Hex.encode (serializeSignature ⟨p, payload.toUTF8.data.toList⟩), origin := 0 }
    message := { sender := j, receiver := none, body } }

theorem firstOfThree_expects : firstOfThree.Expects [2, 3] goodFrom where
  fresh := rfl
  distinct := by decide
  notOwn := by decide
  count := rfl
  completes := ⟨{ message := 42, others := [2, 3] }, { signer := 1, good := true }, rfl,
    complete_isSome_iff _⟩

theorem firstOfThree_signsOnce :
    firstOfThree.SignsOnce [2, 3] goodFrom [partialSigOf 2 .bob, partialSigOf 3 .carol] :=
  (signsOnce_iff firstOfThree_expects _).mpr
    ⟨by decide, .inl ⟨[2, 3], .refl _, .cons rfl (.cons rfl .nil)⟩⟩

/-- Bob's partial signature comes twice before Carol's. -/
theorem not_signsOnce_of_replay :
    ¬ firstOfThree.SignsOnce [2, 3] goodFrom
      [partialSigOf 2 .bob, partialSigOf 2 .bob, partialSigOf 3 .carol] := by
  intro h
  refine h.2 _ (List.prefix_refl _) (fun j hj => ?_) (by rfl)
  rcases List.mem_cons.mp hj with rfl | hj
  · exact ⟨partialSigOf 2 .bob, by simp, rfl, rfl⟩
  · obtain rfl := List.mem_singleton.mp hj
    exact ⟨partialSigOf 3 .carol, by simp, rfl, rfl⟩

end Sample

end MpcServer

import MpcServer.Lib.Tally
import MpcServer.Actors.Copies
import MpcServer.Retries

/-!
# Envelopes are conserved

A reception from the broker has one copy on its way at most: on the clock, in
the mailbox of one runner, or in a report that it came too early. Every handler
call takes up the copy it makes the next one of, and lets none go that passed
the first look until a runner has it or the limit is reached. That rests on two things
outside the server: no text reads as a message of two kinds, and a state
machine calls a message out of order only when it is handed one.
-/

namespace MpcServer

open Rust Rust.Method Machine

variable {C : Crates}

/-! ## What the server relies on -/

/-- No text reads as a message of two of the three kinds. -/
def ReadsOneKind (C : Crates) : Prop :=
  ∀ text, (C.msgO.read text).toList.length + (C.msgS.read text).toList.length +
    (C.msgKG.read text).toList.length ≤ 1

/-- The error of a message that came too early. -/
def StageError.outOfOrder : StageError → Bool
  | .receivedOutOfOrderMessage _ _ => true
  | .other _ => false

/-- `proceed` calls no message out of order. -/
def ProceedsInOrder (SM : Type) {β ο : Type} [StateMachine SM β StageError ο] : Prop :=
  ∀ (k : SM) (e : StageError), (StateMachine.proceed k).1 = .error e → e.outOfOrder = false

/-- Both protocols keep that promise. -/
structure InOrder (C : Crates) : Prop where
  keygen : ProceedsInOrder C.Keygen
  offline : ProceedsInOrder C.OfflineStage

namespace Actor

variable {σ μ : Type}

/-! ## Counting mailboxes -/

/-- How many messages with `p` wait in the mailboxes. -/
def waiting (p : μ → Bool) (l : List (Actor σ μ)) : Nat :=
  Tally.total (fun x => x.mailbox.countP p) l

theorem waiting_start (p : μ → Bool) (l : List (Actor σ μ)) (s : σ) (started alive : Bool) :
    waiting p (l ++ [⟨s, [], started, alive⟩]) = waiting p l := by
  simp [waiting]

theorem countP_post_le (p : μ → Bool) (m : μ) (x : Actor σ μ) :
    (x.post m).mailbox.countP p ≤ x.mailbox.countP p + (p m).toNat := by
  unfold post
  split
  · simp only [List.countP_append, List.countP_singleton]
    cases p m <;> simp
  · exact Nat.le_add_right _ _

theorem waiting_post_le (p : μ → Bool) (m : μ) (l : List (Actor σ μ)) (a : Nat) :
    waiting p (l.modify a (post m)) ≤ waiting p l + (p m).toNat :=
  Tally.total_modify_le (countP_post_le p m) l a

/-- A runner that takes `msg` off its mailbox leaves that much less. -/
theorem waiting_taken (p : μ → Bool) {l : List (Actor σ μ)} {a : Nat} {x y : Actor σ μ}
    {msg : Option μ} {rest : List μ} (hget : l[a]? = some x)
    (hbox : x.mailbox = msg.toList ++ rest) (hy : y.mailbox = rest) :
    waiting p (l.set a y) + msg.toList.countP p = waiting p l := by
  have hset := Tally.total_set (fun x : Actor σ μ => x.mailbox.countP p) hget y
  simp only [hbox, hy, List.countP_append] at hset
  unfold waiting
  omega

end Actor

namespace Node

/-! ## The copies of a reception -/

/-- The message on the clock is a copy of reception `k`. -/
def retryOf (k : Nat) (m : RetryMessage) : Bool := m.message.origin = k

/-- The mail is a copy of reception `k`. -/
def copyOf {μ : Type} (k : Nat) (m : IncomingMessage μ) : Bool := m.wireMessage.origin = k

/-- A report that a copy of reception `k` came too early. -/
def reportOf (k : Nat) (m : Mail C) : Bool :=
  match reported m with
  | some (error, a) => error.outOfOrder && decide (a.origin = k)
  | none => false

/-- The copies of reception `k` on their way: scheduled, notified, in the
mailbox of a runner, reported back. -/
def copies (n : Node C) (k : Nat) : Nat :=
  n.timers.countP (retryOf k) + n.notified.countP (retryOf k) +
    (Actor.waiting (copyOf k) n.playersKG + Actor.waiting (copyOf k) n.playersO +
      Actor.waiting (copyOf k) n.signers) + n.mailbox.countP (reportOf k)

/-- The effect puts a copy of reception `k` on its way. -/
def sets (k : Nat) (e : Effect C) : Bool := schedules k (.effect e) || delivers k (.effect e)

theorem copies_applyEffect_le (n : Node C) (k : Nat) (e : Effect C) :
    (n.applyEffect e).copies k ≤ n.copies k + (sets k e).toNat := by
  cases e with
  | schedule d m =>
      have hsets : sets k (.schedule d m : Effect C) = retryOf k m := by
        simp [sets, schedules, delivers, retryOf]
      simp only [applyEffect, copies, List.countP_append, List.countP_singleton, hsets]
      cases retryOf k m
      · simp
      · simp only [if_true, Bool.toNat_true]
        omega
  | deliverKG a m =>
      have := Actor.waiting_post_le (copyOf k) m n.playersKG a
      have hsets : sets k (.deliverKG a m : Effect C) = copyOf k m := by
        simp [sets, schedules, delivers, copyOf]
      simp only [applyEffect, copies, hsets]
      omega
  | deliverO a m =>
      have := Actor.waiting_post_le (copyOf k) m n.playersO a
      have hsets : sets k (.deliverO a m : Effect C) = copyOf k m := by
        simp [sets, schedules, delivers, copyOf]
      simp only [applyEffect, copies, hsets]
      omega
  | deliverS a m =>
      have := Actor.waiting_post_le (copyOf k) m n.signers a
      have hsets : sets k (.deliverS a m : Effect C) = copyOf k m := by
        simp [sets, schedules, delivers, copyOf]
      simp only [applyEffect, copies, hsets]
      omega
  | startKG a p => simp [applyEffect, copies, Actor.waiting_start]
  | startO a p => simp [applyEffect, copies, Actor.waiting_start]
  | startS a s => simp [applyEffect, copies, Actor.waiting_start]
  | _ => exact Nat.le_add_right _ _

theorem copies_applyEffects_le (n : Node C) (k : Nat) (es : List (Effect C)) :
    (es.foldl applyEffect n).copies k ≤ n.copies k + es.countP (sets k) := by
  induction es generalizing n with
  | nil => exact Nat.le_add_right _ _
  | cons e es ih =>
      have hhead := copies_applyEffect_le n k e
      have htail := ih (n.applyEffect e)
      rw [List.foldl_cons, List.countP_cons]
      cases hsets : sets k e <;> simp [hsets] at hhead ⊢ <;> omega

theorem copies_perform_of_quiet {n t : Node C} {k : Nat} {es : List (Effect C)}
    (h : ∀ e ∈ es, Quiet e) (ht : t.copies k ≤ n.copies k) :
    (es.foldl applyEffect t).copies k ≤ n.copies k := by
  have hzero : es.countP (sets k) = 0 := by
    refine List.countP_eq_zero.mpr fun e he => ?_
    have := moves_of_quiet (k := k) (h e he)
    simp only [moves, Bool.or_eq_false_iff] at this
    simp [sets, this.1.1, this.2]
  have := copies_applyEffects_le t k es
  omega

/-! ## Where a copy goes -/

theorem delivery_length_le {μ : Type} (runners : String → Option Addr)
    (codec : Serde (Msg μ) String) (deliver : Addr → IncomingMessage (Msg μ) → Effect C)
    (a : Arrival) :
    (Coordinator.delivery runners codec deliver a).toList.length ≤
      (codec.read a.payload).toList.length := by
  unfold Coordinator.delivery
  cases runners a.room with
  | none => exact Nat.zero_le _
  | some b => cases codec.read a.payload <;> exact Nat.le_refl _

/-- No message is delivered twice. -/
theorem deliveries_length_le (hreads : ReadsOneKind C) (c : Coordinator C) (a : Arrival) :
    (c.deliveries a).length ≤ 1 := by
  have ho := delivery_length_le c.offlineStateRunners C.msgO .deliverO a
  have hs := delivery_length_le c.signers C.msgS .deliverS a
  have hk := delivery_length_le c.keygenRunners C.msgKG .deliverKG a
  have := hreads a.payload
  simp only [Coordinator.deliveries, List.length_append]
  omega

theorem effects_length_le (hreads : ReadsOneKind C) (c : Coordinator C) (f : Fate) :
    (c.effects f).length ≤ 1 := by
  cases f with
  | gone => exact Nat.zero_le _
  | panicked => exact Nat.zero_le _
  | retried m =>
      simp only [Coordinator.effects, Coordinator.retryEffects]
      split <;> exact Nat.le_refl _
  | delivered a => exact deliveries_length_le hreads c a

/-- A fate makes one copy of the copy it is of, and none of another. -/
theorem copies_settle_le (hreads : ReadsOneKind C) (n : Node C) {f : Fate} {j : Nat}
    (hf : f.About j) (k : Nat) :
    (n.settle f).copies k ≤ n.copies k + if j = k then 1 else 0 := by
  have hle := copies_applyEffects_le { n with alive := !f.panics } k (n.coordinator.effects f)
  by_cases hk : j = k
  · have hone : (n.coordinator.effects f).countP (sets k) ≤ 1 :=
      Nat.le_trans List.countP_le_length (effects_length_le hreads n.coordinator f)
    rw [if_pos hk]
    exact Nat.le_trans hle (Nat.add_le_add_left hone _)
  · have hzero : (n.coordinator.effects f).countP (sets k) = 0 := by
      refine List.countP_eq_zero.mpr fun e he => ?_
      have := moves_effects hf hk e he
      simp only [moves, Bool.or_eq_false_iff] at this
      simp [sets, this.1.1, this.2]
    rw [if_neg hk]
    rw [hzero] at hle
    exact hle

/-! ## What runners send back -/

/-- A player takes a message up and reports it once at most, or another one
not at all. -/
theorem countP_reports_le {I SM β ο : Type} [StateMachine SM β StageError ο]
    {mail : PlayerSend I β StageError ο → Option (Mail C)} {k : Nat} {p : MpcPlayer I SM}
    {msg : Option (IncomingMessage (Msg β))} {sends : List (PlayerSend I β StageError ο)}
    (hmail : ∀ {s m error w}, mail s = some m → reported m = some (error, w) →
      ∃ e, s = .error e ∧ e.error = error ∧ e.message.wireMessage = w)
    (hsends : ∀ s ∈ sends, MpcPlayer.Sends p msg s)
    (hone : ∀ m, msg = some m →
      sends.countP (MpcPlayer.reportsLate StageError.outOfOrder) ≤ 1) :
    (sends.filterMap mail).countP (reportOf k) ≤ msg.toList.countP (copyOf k) := by
  have hle : (sends.filterMap mail).countP (reportOf k) ≤
      if 0 < msg.toList.countP (copyOf k) then
        sends.countP (MpcPlayer.reportsLate StageError.outOfOrder) else 0 := by
    refine Tally.countP_filterMap_le fun s hs m hm hr => ?_
    unfold reportOf at hr
    split at hr
    case h_2 => cases hr
    case h_1 error w hreported =>
      obtain ⟨e, rfl, rfl, rfl⟩ := hmail hm hreported
      obtain ⟨hlate, hcopy⟩ := Bool.and_eq_true_iff.mp hr
      have hmsg : some e.message = msg := (hsends _ hs).2
      exact ⟨hlate, by simp [← hmsg, copyOf, of_decide_eq_true hcopy]⟩
  cases msg with
  | none => simpa using hle
  | some m =>
      have hone := hone m rfl
      split at hle <;> omega

theorem countP_reportsKG_le (hproceed : ProceedsInOrder C.Keygen) (k : Nat) (a : Addr)
    (p : PlayerKG C) (now : Nat) (msg : Option (IncomingKG C)) :
    ((callKG p now msg).2.2.filterMap (mailKG a)).countP (reportOf k) ≤
      msg.toList.countP (copyOf k) := by
  refine countP_reports_le reported_mailKG (callKG_keeps p now msg).2 fun m hm => ?_
  subst hm
  exact MpcPlayer.handle_reports hproceed C.overflowChecks C.msgKG now m p

theorem countP_reportsO_le (hproceed : ProceedsInOrder C.OfflineStage) (k : Nat) (a : Addr)
    (p : PlayerO C) (now : Nat) (msg : Option (IncomingO C)) :
    ((callO p now msg).2.2.filterMap (mailO a)).countP (reportOf k) ≤
      msg.toList.countP (copyOf k) := by
  refine countP_reports_le reported_mailO (callO_keeps p now msg).2 fun m hm => ?_
  subst hm
  exact MpcPlayer.handle_reports hproceed C.overflowChecks C.msgO now m p

/-- A signer reports nothing back. -/
theorem countP_reportsS (k : Nat) (a : Addr) (sends : List (SignerSend C)) :
    (sends.filterMap (mailS a)).countP (reportOf k) = 0 := by
  refine List.countP_eq_zero.mpr fun m hm => ?_
  obtain ⟨s, -, hs⟩ := List.mem_filterMap.mp hm
  cases s <;> cases hs <;> simp [reportOf, reported]

/-! ## One step -/

theorem Steps.copies_le (hreads : ReadsOneKind C) (horder : InOrder C) {n t : Node C} {e : Event}
    {o : List (Obs C)} (h : Steps n e t o) (k : Nat) :
    n.nextOrigin ≤ t.nextOrigin ∧
      t.copies k ≤ n.copies k + if n.nextOrigin = k ∧ n.nextOrigin < t.nextOrigin then 1 else 0 := by
  -- but for a reception a step has to bring no copy about
  have hno {t : Node C} (h' : t.nextOrigin = n.nextOrigin) (hle : t.copies k ≤ n.copies k) :
      n.nextOrigin ≤ t.nextOrigin ∧ t.copies k ≤ n.copies k +
        if n.nextOrigin = k ∧ n.nextOrigin < t.nextOrigin then 1 else 0 :=
    ⟨h'.ge, Nat.le_trans hle (Nat.le_add_right _ _)⟩
  cases h with
  | skipped _ => exact hno rfl (Nat.le_refl _)
  | lost _ => exact hno rfl (Nat.le_refl _)
  | finished _ => exact hno rfl (Nat.le_refl _)
  | attempted _ _ _ => exact hno rfl (Nat.le_refl _)
  | queued _ => exact hno rfl (by simp [copies, reportOf, reported])
  | @received _ amb w _ _ =>
      obtain ⟨f, hf, heq⟩ := receive_fate n w amb
      rw [heq]
      have hle := copies_settle_le hreads { n with nextOrigin := n.nextOrigin + 1 } hf.about k
      simp only [settle_nextOrigin, Nat.lt_succ_self, and_true]
      exact ⟨Nat.le_succ _, hle⟩
  | @tookMail amb m rest _ hbox =>
      -- a report that is taken up is a copy less in the mailbox
      have htaken : ({ n with mailbox := rest } : Node C).copies k + (reportOf k m).toNat =
          n.copies k := by
        simp only [copies, hbox, List.countP_cons]
        cases reportOf k m
        · simp
        · simp only [if_true, Bool.toNat_true]
          omega
      cases hm : reported m with
      | some r =>
          obtain ⟨error, a⟩ := r
          rw [takeMail_reported n hm]
          refine hno (by simp) ?_
          cases error with
          | other _ =>
              show ({ n with mailbox := rest } : Node C).copies k ≤ n.copies k
              omega
          | receivedOutOfOrderMessage current round =>
              -- the copy goes back on the clock, which the report taken up makes up for
              have hle := copies_settle_le hreads { n with mailbox := rest }
                (f := Coordinator.fateOfError (.receivedOutOfOrderMessage current round) a
                  (n.ctx amb)) (j := a.origin) rfl k
              dsimp only
              simp only [reportOf, hm, StageError.outOfOrder, Bool.true_and] at htaken
              by_cases hk : a.origin = k
              · simp only [hk, if_true, decide_true, Bool.toNat_true] at hle htaken
                omega
              · simp only [hk, if_false] at hle
                omega
      | none =>
          obtain ⟨r, c, es, hh, heq⟩ := takeMail_handled n hm rest amb
          rw [heq]
          refine hno (by simp) (copies_perform_of_quiet hh.quiet ?_)
          show ({ n with mailbox := rest } : Node C).copies k ≤ n.copies k
          omega
  | @fired i m hget =>
      refine hno rfl (Nat.le_of_eq ?_)
      obtain ⟨hi, rfl⟩ := List.getElem?_eq_some_iff.mp hget
      have hperm := (List.getElem_cons_eraseIdx_perm hi).countP_eq (retryOf k)
      simp only [copies, List.countP_append, List.countP_cons, List.countP_nil] at hperm ⊢
      omega
  | @tookRetry amb m rest _ hbox =>
      obtain ⟨f, hf, heq⟩ := takeRetry_fate n m rest amb
      rw [heq]
      refine hno (by simp) ?_
      have hle := copies_settle_le hreads { n with notified := rest } hf.about k
      have htaken : ({ n with notified := rest } : Node C).copies k +
          (if m.message.origin = k then 1 else 0) = n.copies k := by
        simp only [copies, hbox, List.countP_cons, retryOf, decide_eq_true_eq]
        omega
      dsimp only
      omega
  | @ranKG _ a now x rest msg hget _ hbox _ =>
      refine hno rfl ?_
      -- a player takes up one message, and what it reports back is that one, once
      have htaken := Actor.waiting_taken (copyOf k) hget hbox
        (y := .after rest (callKG x.state now msg)) rfl
      have hsent := countP_reportsKG_le horder.keygen k a x.state now msg
      simp only [copies, afterKG, List.countP_append]
      omega
  | @ranO _ a now x rest msg hget _ hbox _ =>
      refine hno rfl ?_
      have htaken := Actor.waiting_taken (copyOf k) hget hbox
        (y := .after rest (callO x.state now msg)) rfl
      have hsent := countP_reportsO_le horder.offline k a x.state now msg
      simp only [copies, afterO, List.countP_append]
      omega
  | @ranS _ a x rest msg hget _ _ hbox _ =>
      refine hno rfl ?_
      have htaken := Actor.waiting_taken (copyOf k) hget hbox
        (y := .after rest (callS x.state msg)) rfl
      have hsent := countP_reportsS k a (callS x.state msg).2.2
      simp only [copies, afterS, List.countP_append]
      omega

/-! ## Calls -/

/-- The effect of an observation on the outside. -/
def carriedOut : Obs C → Option (Effect C)
  | .effect e => some e
  | _ => none

/-- The step at the event calls `handle_incoming_unsafe`: on an envelope that
has just passed the check, or on a retried one. -/
inductive CallsUnsafe (n : Node C) : Event → Arrival → Nat → UInt16 → Prop
  | incoming {item amb w piece a} : n.alive = true → n.arriving item = some w →
      byteSlice n.coordinator.pkStr 2 10 = .ok piece → containsStr w.room piece = true →
      Coordinator.Passes n.coordinator amb ⟨w, n.nextOrigin⟩ a →
      CallsUnsafe n (.wire item amb) a amb.now 0
  | checked {amb m rest} : n.alive = true → n.notified = m :: rest → m.checkPassed = true →
      CallsUnsafe n (.retry amb) m.message m.initialTimestamp m.attempts
  | rechecked {amb m rest a} : n.alive = true → n.notified = m :: rest →
      m.checkPassed = false → Coordinator.Passes n.coordinator amb m.message a →
      CallsUnsafe n (.retry amb) a m.initialTimestamp m.attempts

/-- The message as it is scheduled once more. -/
def nextRetry (a : Arrival) (initTs : Nat) (attempts : UInt16) : RetryMessage :=
  { initialTimestamp := initTs, attempts := attempts + 1, checkPassed := true, message := a }

/-- How a call ends: in a delivery to the one runner that takes the message, in
one retry, or in a drop at the limit. -/
inductive EndsIn (c : Coordinator C) (a : Arrival) (initTs : Nat) (attempts : UInt16) :
    Effect C → Prop
  | delivered {x} : Delivers a (.effect x) → c.deliveries a = [x] → EndsIn c a initTs attempts x
  | scheduled : c.deliveries a = [] → attempts < 33 →
      EndsIn c a initTs attempts (.schedule (Coordinator.retryDelay (attempts + 1))
        (nextRetry a initTs attempts))
  | dropped : c.deliveries a = [] → attempts = 33 →
      EndsIn c a initTs attempts (.drop (nextRetry a initTs attempts))

theorem delivers_of_mem {c : Coordinator C} {a : Arrival} {x : Effect C}
    (hx : x ∈ c.deliveries a) : Delivers a (.effect x) := by
  have hleaves : Leaves (fun _ => True) (fun _ => True) (.delivered a) := trivial
  have hknown := known_effects c hleaves (.effect x) (List.mem_map.mpr ⟨x, hx, rfl⟩)
  simp only [Coordinator.deliveries, List.mem_append, Option.mem_toList, Coordinator.delivery,
    Option.bind_eq_some_iff, Option.map_eq_some_iff] at hx
  obtain (⟨_, -, _, -, rfl⟩ | ⟨_, -, _, -, rfl⟩) | ⟨_, -, _, -, rfl⟩ := hx <;>
    exact (hknown.delivered _ rfl).1

theorem addU16_one {attempts : UInt16} (h : attempts.toNat ≤ 33) :
    addU16 C.overflowChecks attempts 1 = .ok (attempts + 1) := by
  unfold addU16
  rw [if_neg]
  rintro ⟨-, hmax⟩
  rw [UInt16.toNat_one] at hmax
  omega

/-- **A routed message ends in one way.** -/
theorem endsIn_of_routed (hreads : ReadsOneKind C) {c : Coordinator C} {a : Arrival}
    {initTs : Nat} {attempts : UInt16} (hle : attempts.toNat ≤ 33) {f : Fate}
    (h : Coordinator.Routed c a initTs attempts f) :
    f.panics = false ∧ ∃ x, c.effects f = [x] ∧ EndsIn c a initTs attempts x := by
  cases h with
  | delivered hsome =>
      have hlen := deliveries_length_le hreads c a
      have hpos := List.length_pos_iff.mpr hsome
      obtain ⟨x, hx⟩ := List.length_eq_one_iff.mp (by omega : (c.deliveries a).length = 1)
      have hmem : x ∈ c.deliveries a := by
        rw [hx]
        exact List.mem_singleton_self x
      exact ⟨rfl, x, hx, .delivered (delivers_of_mem hmem) hx⟩
  | retried hnone hadd =>
      cases (addU16_one hle).symm.trans hadd
      refine ⟨rfl, ?_⟩
      have hnext : (attempts + 1).toNat = attempts.toNat + 1 := by
        rw [UInt16.toNat_add, UInt16.toNat_one]
        omega
      -- the limit is compared with the number of the next attempt
      by_cases hmax : attempts = 33
      · refine ⟨_, ?_, .dropped hnone hmax⟩
        subst hmax
        rfl
      · have hlt : attempts < 33 := by
          have : attempts.toNat ≠ 33 := fun h => hmax (UInt16.toNat_inj.mp h)
          rw [UInt16.lt_iff_toNat_lt]
          show attempts.toNat < 33
          omega
        refine ⟨_, ?_, .scheduled hnone hlt⟩
        have hkept : ¬ 33 < attempts + 1 := by
          rw [UInt16.lt_iff_toNat_lt, hnext]
          rw [UInt16.lt_iff_toNat_lt] at hlt
          change attempts.toNat < 33 at hlt
          show ¬ 33 < attempts.toNat + 1
          omega
        simp only [Coordinator.effects, Coordinator.retryEffects, if_neg hkept, nextRetry]
  | panicked _ hadd => cases (addU16_one hle).symm.trans hadd

theorem routed_of_calls {n : Node C} {e : Event} {a : Arrival} {initTs : Nat} {attempts : UInt16}
    (h : n.CallsUnsafe e a initTs attempts) :
    ∃ f t o, Coordinator.Routed n.coordinator a initTs attempts f ∧ n.step e = some (t, o) ∧
      o.filterMap carriedOut = n.coordinator.effects f := by
  -- of an effect nothing is filtered away
  have heffects (f : Fate) :
      ((n.coordinator.effects f).map Obs.effect).filterMap carriedOut =
        n.coordinator.effects f := by
    rw [List.filterMap_map]
    exact List.filterMap_some
  cases h with
  | @incoming item amb w piece _ halive harr hpiece hroom hpass =>
      obtain ⟨f, hf, heq⟩ := receive_fate n w amb
      have hstep : n.step (.wire item amb) = some (n.receive w amb) := by
        simp [step, halive, harr]
      rw [heq] at hstep
      refine ⟨f, _, _, ?_, hstep, ?_⟩
      · -- what `CallsUnsafe` says of the check leaves one way in
        cases hf with
        | sliced h => cases hpiece.symm.trans h
        | foreign h h' =>
            cases hpiece.symm.trans h
            cases hroom.symm.trans h'
        | notForMe h => cases hpass.1.symm.trans h
        | unwrapped h => cases hpass.1.symm.trans h
        | undecryptable _ h => cases hpass.2.symm.trans h
        | unknown h _ => cases hpass.1.symm.trans h
        | passed h hr =>
            cases hpass.2.symm.trans h.2
            exact hr
      · exact (List.filterMap_cons_none rfl).trans (heffects f)
  | @checked amb m rest halive hbox hchecked =>
      obtain ⟨f, hf, heq⟩ := takeRetry_fate n m rest amb
      have hstep : n.step (.retry amb) = some (n.takeRetry m rest amb) := by
        simp [step, halive, hbox]
      rw [heq] at hstep
      refine ⟨f, _, _, ?_, hstep, heffects f⟩
      cases hf with
      | checked _ hr => exact hr
      | passed h _ _ => cases hchecked.symm.trans h
      | unwrapped h _ => cases hchecked.symm.trans h
      | failed h _ _ => cases hchecked.symm.trans h
      | overflowed h _ _ => cases hchecked.symm.trans h
  | @rechecked amb m rest _ halive hbox hchecked hpass =>
      obtain ⟨f, hf, heq⟩ := takeRetry_fate n m rest amb
      have hstep : n.step (.retry amb) = some (n.takeRetry m rest amb) := by
        simp [step, halive, hbox]
      rw [heq] at hstep
      refine ⟨f, _, _, ?_, hstep, heffects f⟩
      cases hf with
      | checked h _ => cases hchecked.symm.trans h
      | passed _ h hr =>
          cases hpass.2.symm.trans h.2
          exact hr
      | unwrapped _ h => cases hpass.1.symm.trans h
      | failed _ h _ => exact absurd hpass (h _)
      | overflowed _ h _ => exact absurd hpass (h _)

/-! ## Runs -/

/-- A step puts on the clock what one fate schedules. -/
theorem Steps.clock {n t : Node C} {e : Event} {o : List (Obs C)} (h : Steps n e t o) :
    ∃ f, ∀ m, m ∈ t.timers ∨ m ∈ t.notified →
      (m ∈ n.timers ∨ m ∈ n.notified) ∨ m ∈ onClock f := by
  -- a fate puts on the clock what it retries
  have hsettle (n t : Node C) (f : Fate) (htimers : t.timers = n.timers)
      (hnotified : ∀ m ∈ t.notified, m ∈ n.notified) (m : RetryMessage)
      (hm : m ∈ (t.settle f).timers ∨ m ∈ (t.settle f).notified) :
      (m ∈ n.timers ∨ m ∈ n.notified) ∨ m ∈ onClock f := by
    rw [settle_timers, htimers] at hm
    rcases hm with hm | hm
    · exact (List.mem_append.mp hm).imp_left .inl
    · exact .inl (.inr (hnotified m (by simpa [settle] using hm)))
  cases h with
  | skipped _ => exact ⟨.gone, fun m hm => .inl hm⟩
  | lost _ => exact ⟨.gone, fun m hm => .inl hm⟩
  | finished _ => exact ⟨.gone, fun m hm => .inl hm⟩
  | attempted _ _ _ => exact ⟨.gone, fun m hm => .inl hm⟩
  | queued _ => exact ⟨.gone, fun m hm => .inl hm⟩
  | @received _ amb w _ _ =>
      obtain ⟨f, -, heq⟩ := receive_fate n w amb
      rw [heq]
      exact ⟨f, hsettle n _ f rfl fun m hm => hm⟩
  | @tookMail amb m rest _ hbox =>
      cases hm : reported m with
      | some r =>
          obtain ⟨error, a⟩ := r
          rw [takeMail_reported n hm]
          exact ⟨_, hsettle n _ _ rfl fun m hm => hm⟩
      | none =>
          obtain ⟨r, c, es, hh, heq⟩ := takeMail_handled n hm rest amb
          rw [heq]
          refine ⟨.gone, fun m hm => .inl ?_⟩
          simpa [applyEffects_timers, scheduled_of_quiet hh.quiet] using hm
  | @fired i m hget => exact ⟨.gone, fun m' hm' => .inl (mem_of_fired hget hm')⟩
  | @tookRetry amb m rest _ hbox =>
      obtain ⟨f, -, heq⟩ := takeRetry_fate n m rest amb
      rw [heq]
      exact ⟨f, hsettle n _ f rfl fun m' hm' => by rw [hbox]; exact List.mem_cons_of_mem _ hm'⟩
  | ranKG _ _ _ _ _ => exact ⟨.gone, fun m hm => .inl hm⟩
  | ranO _ _ _ _ _ => exact ⟨.gone, fun m hm => .inl hm⟩
  | ranS _ _ _ _ _ _ => exact ⟨.gone, fun m hm => .inl hm⟩

theorem attempts_of_onClock {f : Fate} {m : RetryMessage} (hm : m ∈ onClock f) :
    m.attempts.toNat ≤ 33 := by
  cases f with
  | retried m' =>
      simp only [onClock] at hm
      split at hm
      · cases hm
      · obtain rfl := List.mem_singleton.mp hm
        simpa [UInt16.lt_iff_toNat_lt] using ‹¬ 33 < _›
  | _ => cases hm

/-- Every reception has one copy on its way at most, none before it came, and
nothing on the clock is past the limit. -/
structure Conserved (n : Node C) : Prop where
  one : ∀ k, n.copies k ≤ 1
  fresh : ∀ k, n.nextOrigin ≤ k → n.copies k = 0
  attempts : ∀ m, m ∈ n.timers ∨ m ∈ n.notified → m.attempts.toNat ≤ 33

theorem Conserved.init (sk : C.SecretKey) (db : Tree C) : Conserved (init sk db) where
  one k := Nat.zero_le 1
  fresh k _ := rfl
  attempts m hm := by rcases hm with hm | hm <;> cases hm

theorem Conserved.step (hreads : ReadsOneKind C) (horder : InOrder C) {n t : Node C} {e : Event}
    {o : List (Obs C)} (hn : Conserved n) (h : Steps n e t o) : Conserved t := by
  refine ⟨fun k => ?_, fun k hk => ?_, fun m hm => ?_⟩
  · obtain ⟨-, hle⟩ := h.copies_le hreads horder k
    by_cases hk : n.nextOrigin = k ∧ n.nextOrigin < t.nextOrigin
    · -- the reception has just come, so this is its first copy
      have hzero := hn.fresh k hk.1.le
      rw [if_pos hk] at hle
      omega
    · have hone := hn.one k
      rw [if_neg hk] at hle
      omega
  · obtain ⟨hnext, hle⟩ := h.copies_le hreads horder k
    have hzero := hn.fresh k (by omega)
    rw [if_neg (by omega)] at hle
    omega
  · obtain ⟨f, hf⟩ := h.clock
    exact (hf m hm).elim (hn.attempts m) attempts_of_onClock

/-! ### Nothing is lost -/

/-- The envelope is let go at the first look: its room does not name this server, it is
not for this server, or it cannot be decrypted. -/
inductive Dismisses (c : Coordinator C) (amb : Ambient) (a : Arrival) : Prop
  | foreign {piece} : byteSlice c.pkStr 2 10 = .ok piece → containsStr a.room piece = false →
      Dismisses c amb a
  | notForMe : Coordinator.validSenderAndReceiver c amb a = .error (.err .notForMe) →
      Dismisses c amb a
  | undecryptable {e} : Coordinator.validSenderAndReceiver c amb a = .ok () →
      maybeDecrypt c.sk a = .error e → Dismisses c amb a

/-- The coordinator does something with a copy of reception `k`, or is told that one
came too early. -/
def touches (k : Nat) : Obs C → Bool
  | .handled m => reportOf k m
  | x => moves k x

/-- **Where reception `k` is**: it was dismissed when it came, one copy waits for its
next attempt, it was delivered and has not come back to the coordinator, or it was dropped
at the limit. -/
inductive Kept (n₀ : Node C) (k : Nat) (os : List (Obs C)) (n : Node C) : Prop
  | dismissed {os₁ os₂ n₁ w amb} : os = os₁ ++ .received k w :: os₂ →
      Run step anyStep n₀ os₁ n₁ → Dismisses n₁.coordinator amb ⟨w, k⟩ → Kept n₀ k os n
  | waits : (n.pending k).length = 1 → Kept n₀ k os n
  | delivered {os₁ a x os₂} : os = os₁ ++ x :: os₂ → Delivers a x → a.origin = k →
      (∀ y ∈ os₂, touches k y = false) → Kept n₀ k os n
  | dropped {m} : .effect (.drop m) ∈ os → m.message.origin = k → 33 < m.attempts →
      Kept n₀ k os n

/-- What is delivered has a runner that takes it. -/
def Fate.Reaches (c : Coordinator C) : Fate → Prop
  | .delivered a => c.deliveries a ≠ []
  | _ => True

section
variable {n₀ n t : Node C} {k : Nat} {os o : List (Obs C)} {c : Coordinator C} {f : Fate}

theorem reaches_of_routed {a : Arrival} {initTs : Nat} {attempts : UInt16}
    (h : Coordinator.Routed c a initTs attempts f) : f ≠ .gone ∧ Fate.Reaches c f := by
  cases h with
  | delivered hsome => exact ⟨by rintro ⟨⟩, hsome⟩
  | retried _ _ => exact ⟨by rintro ⟨⟩, trivial⟩
  | panicked _ _ => exact ⟨by rintro ⟨⟩, trivial⟩

/-- A retry is never let go. -/
theorem reaches_of_retried {ctx : Ctx} {m : RetryMessage} (h : Coordinator.Retried c ctx m f) :
    f ≠ .gone ∧ Fate.Reaches c f := by
  cases h with
  | checked _ hr => exact reaches_of_routed hr
  | passed _ _ hr => exact reaches_of_routed hr
  | unwrapped _ _ => exact ⟨by rintro ⟨⟩, trivial⟩
  | failed _ _ _ => exact ⟨by rintro ⟨⟩, trivial⟩
  | overflowed _ _ _ => exact ⟨by rintro ⟨⟩, trivial⟩

/-- A fresh envelope is let go only where the first look dismisses it. -/
theorem reaches_of_incoming {ctx : Ctx} {a : Arrival} (h : Coordinator.Incoming c ctx a f) :
    (f = .gone → Dismisses c ctx.toAmbient a) ∧ Fate.Reaches c f := by
  cases h with
  | sliced _ => exact ⟨by rintro ⟨⟩, trivial⟩
  | foreign hpiece hroom => exact ⟨fun _ => .foreign hpiece hroom, trivial⟩
  | notForMe hvalid => exact ⟨fun _ => .notForMe hvalid, trivial⟩
  | unwrapped _ => exact ⟨by rintro ⟨⟩, trivial⟩
  | undecryptable hvalid hdec => exact ⟨fun _ => .undecryptable hvalid hdec, trivial⟩
  | unknown _ _ => exact ⟨by rintro ⟨⟩, trivial⟩
  | passed _ hr =>
      obtain ⟨hgone, hreaches⟩ := reaches_of_routed hr
      exact ⟨fun h => absurd h hgone, hreaches⟩

/-- A step that does nothing with reception `k`. -/
theorem Kept.still (h : Kept n₀ k os n) (ho : ∀ x ∈ o, touches k x = false)
    (hp : (t.pending k).Perm (n.pending k)) : Kept n₀ k (os ++ o) t := by
  cases h with
  | @dismissed os₁ os₂ n₁ w amb hos hrun hdismisses =>
      have hos' : os ++ o = os₁ ++ .received k w :: (os₂ ++ o) := by
        rw [hos, List.append_assoc, List.cons_append]
      exact .dismissed hos' hrun hdismisses
  | waits hone => exact .waits (hp.length_eq.trans hone)
  | @delivered os₁ a x os₂ hos hdelivers horigin hstill =>
      have hos' : os ++ o = os₁ ++ x :: (os₂ ++ o) := by
        rw [hos, List.append_assoc, List.cons_append]
      exact .delivered hos' hdelivers horigin (List.forall_mem_append.mpr ⟨hstill, ho⟩)
  | dropped hmem horigin hlimit => exact .dropped (List.mem_append_left _ hmem) horigin hlimit

/-- The fate of a copy of another reception. -/
theorem Kept.settle_other (h : Kept n₀ k os n) {j : Nat} (hf : f.About j) (hne : j ≠ k)
    (hp : (t.pending k).Perm (n.pending k)) :
    Kept n₀ k (os ++ (t.coordinator.effects f).map .effect) (t.settle f) := by
  refine h.still (fun x hx => ?_) ((pending_settle_other t hf hne).trans hp)
  obtain ⟨e, he, rfl⟩ := List.mem_map.mp hx
  exact moves_effects hf hne e he

/-- The last delivery of a copy. -/
theorem kept_of_deliveries {a : Arrival} (n₀ n : Node C) (os : List (Obs C))
    (horigin : a.origin = k) (hsome : c.deliveries a ≠ []) :
    Kept n₀ k (os ++ (c.deliveries a).map .effect) n := by
  obtain ⟨init, x, hx⟩ := List.eq_nil_or_concat' (c.deliveries a) |>.resolve_left hsome
  have hmem : x ∈ c.deliveries a := by simp [hx]
  have hlast : os ++ (c.deliveries a).map .effect =
      (os ++ init.map .effect) ++ .effect x :: [] := by simp [hx]
  exact .delivered hlast (delivers_of_mem hmem) horigin fun y hy => by cases hy

/-- **The one copy of reception `k` meets its fate.** -/
theorem kept_of_settle (n₀ n : Node C) (os : List (Obs C)) (hf : f.About k)
    (hreaches : Fate.Reaches n.coordinator f) (hgone : f ≠ .gone) (hup : f.panics = false)
    (hnone : n.pending k = []) :
    Kept n₀ k (os ++ (n.coordinator.effects f).map .effect) (n.settle f) := by
  cases f with
  | gone => exact absurd rfl hgone
  | panicked => cases hup
  | delivered a => exact kept_of_deliveries n₀ _ os hf hreaches
  | retried m =>
      have horigin : m.message.origin = k := hf
      by_cases hlimit : 33 < m.attempts
      · refine .dropped (m := m) (List.mem_append_right _ ?_) horigin hlimit
        simp [Coordinator.effects, Coordinator.retryEffects, hlimit]
      · refine .waits ?_
        have hpend := settle_pending n (.retried m) k
        rw [hnone, onClock, if_neg hlimit, List.nil_append] at hpend
        rw [hpend.length_eq]
        simp [horigin]

end

section
variable {n₀ n t : Node C} {k : Nat} {os o : List (Obs C)} {e : Event}

/-- A coordinator that is up was up before. -/
theorem Steps.was_up (h : Steps n e t o) (hup : t.alive = true) : n.alive = true := by
  cases h with
  | lost hdown => exact hup
  | queued halive => exact halive
  | received halive _ => exact halive
  | finished halive => exact halive
  | attempted halive _ _ => exact halive
  | tookMail halive _ => exact halive
  | tookRetry halive _ => exact halive
  | _ => exact hup

/-- What waits for its next attempt is on its way, and so is a report. -/
theorem length_pending_le (n : Node C) (k : Nat) :
    (n.pending k).length + n.mailbox.countP (reportOf k) ≤ n.copies k := by
  have hlength : (n.pending k).length =
      n.timers.countP (retryOf k) + n.notified.countP (retryOf k) := by
    rw [pending, ← List.countP_eq_length_filter, List.countP_append]
    rfl
  rw [copies]
  omega

/-- Before it came nothing of a reception is on the clock. -/
theorem Conserved.pending_fresh (h : Conserved n) : n.pending n.nextOrigin = [] := by
  have hzero := h.fresh n.nextOrigin (Nat.le_refl _)
  have hle := length_pending_le n n.nextOrigin
  exact List.eq_nil_of_length_eq_zero (by omega)

/-- A copy that was reported back is the only one. -/
theorem Conserved.pending_reported (h : Conserved n) {m : Mail C} {rest : List (Mail C)}
    (hbox : n.mailbox = m :: rest) (hm : reportOf k m = true) : n.pending k = [] := by
  have hone := h.one k
  have hle := length_pending_le n k
  rw [hbox, List.countP_cons_of_pos hm] at hle
  exact List.eq_nil_of_length_eq_zero (by omega)

/-- What comes in is dismissed, or its one copy meets its fate. -/
theorem Conserved.keeps_receive (hn : Conserved n) (hrun : Run Node.step anyStep n₀ os n)
    (hkept : ∀ k < n.nextOrigin, Kept n₀ k os n) (w : WireMessage) (amb : Ambient)
    (hup : (n.receive w amb).1.alive = true) (hk : k < (n.receive w amb).1.nextOrigin) :
    Kept n₀ k (os ++ (n.receive w amb).2) (n.receive w amb).1 := by
  obtain ⟨f, hf, heq⟩ := receive_fate n w amb
  rw [heq] at hup hk ⊢
  obtain ⟨hdismisses, hreaches⟩ := reaches_of_incoming hf
  by_cases hnew : n.nextOrigin = k
  · subst hnew
    by_cases hgone : f = .gone
    · exact .dismissed rfl hrun (hdismisses hgone)
    · have hown := kept_of_settle n₀ { n with nextOrigin := n.nextOrigin + 1 }
        (os ++ [.received n.nextOrigin w]) hf.about hreaches hgone
        (by simpa [settle] using hup) hn.pending_fresh
      rwa [List.append_assoc] at hown
  · have hbefore : k < n.nextOrigin := by
      simp only [settle_nextOrigin] at hk
      omega
    have hstill : Kept n₀ k (os ++ [.received n.nextOrigin w])
        { n with nextOrigin := n.nextOrigin + 1 } :=
      (hkept k hbefore).still (List.forall_mem_singleton.mpr rfl) (.refl _)
    have hother := hstill.settle_other hf.about hnew (.refl _)
    rwa [List.append_assoc] at hother

/-- The mail touches what is reported back, and that is scheduled again. -/
theorem Conserved.keeps_mail (hn : Conserved n) (hkept : ∀ k < n.nextOrigin, Kept n₀ k os n)
    {m : Mail C} {rest : List (Mail C)} (hbox : n.mailbox = m :: rest) (amb : Ambient)
    (hk : k < (n.takeMail m rest amb).1.nextOrigin) :
    Kept n₀ k (os ++ (n.takeMail m rest amb).2) (n.takeMail m rest amb).1 := by
  have hstill (hm : reportOf k m = false) (hbefore : k < n.nextOrigin) :
      Kept n₀ k (os ++ [.handled m]) { n with mailbox := rest } :=
    (hkept k hbefore).still (List.forall_mem_singleton.mpr hm) (.refl _)
  cases hm : reported m with
  | some r =>
      obtain ⟨error, a⟩ := r
      rw [takeMail_reported n hm] at hk ⊢
      rw [settle_nextOrigin] at hk
      cases error with
      | other message =>
          have hquiet : reportOf k m = false := by simp [reportOf, hm, StageError.outOfOrder]
          have hother := (hstill hquiet hk).settle_other (j := k + 1) (f := .gone) trivial
            (by omega) (.refl _)
          rwa [List.append_assoc] at hother
      | receivedOutOfOrderMessage current round =>
          have hreport : reportOf k m = decide (a.origin = k) := by
            simp [reportOf, hm, StageError.outOfOrder]
          by_cases horigin : a.origin = k
          · -- the copy that was reported back is scheduled again
            have hnone := hn.pending_reported hbox (hreport.trans (decide_eq_true horigin))
            have hown := kept_of_settle n₀ { n with mailbox := rest } (os ++ [.handled m])
              (f := Coordinator.fateOfError (.receivedOutOfOrderMessage current round) a
                (n.ctx amb)) horigin trivial (by rintro ⟨⟩) rfl hnone
            rwa [List.append_assoc] at hown
          · have hother := (hstill (hreport.trans (decide_eq_false horigin)) hk).settle_other
              (f := Coordinator.fateOfError (.receivedOutOfOrderMessage current round) a
                (n.ctx amb)) (j := a.origin) rfl horigin (.refl _)
            rwa [List.append_assoc] at hother
  | none =>
      obtain ⟨r, c, es, hh, heq⟩ := takeMail_handled n hm rest amb
      rw [heq] at hk ⊢
      have htouch : ∀ x ∈ es.map Obs.effect, touches k x = false := by
        intro x hx
        obtain ⟨e, he, rfl⟩ := List.mem_map.mp hx
        exact moves_of_quiet (hh.quiet e he)
      have hquiet := (hstill (by simp [reportOf, hm]) (by simpa using hk)).still htouch
        (.of_eq (pending_of_allQuiet hh.quiet
          { n with mailbox := rest, coordinator := c, alive := !isPanic r } k))
      rwa [List.append_assoc] at hquiet

/-- A retry is its reception's one copy on the clock. -/
theorem Conserved.keeps_retry (hn : Conserved n) (hkept : ∀ k < n.nextOrigin, Kept n₀ k os n)
    {m : RetryMessage} {rest : List RetryMessage} (hbox : n.notified = m :: rest) (amb : Ambient)
    (hup : (n.takeRetry m rest amb).1.alive = true)
    (hk : k < (n.takeRetry m rest amb).1.nextOrigin) :
    Kept n₀ k (os ++ (n.takeRetry m rest amb).2) (n.takeRetry m rest amb).1 := by
  obtain ⟨f, hf, heq⟩ := takeRetry_fate n m rest amb
  rw [heq] at hup hk ⊢
  rw [settle_nextOrigin] at hk
  have hpend := pending_taken hbox k
  by_cases horigin : m.message.origin = k
  · obtain ⟨hgone, hreaches⟩ := reaches_of_retried hf
    have hone : (n.pending k).length ≤ 1 := by
      have := length_pending_le n k
      have := hn.one k
      omega
    rw [hpend.length_eq] at hone
    have hnone : ({ n with notified := rest } : Node C).pending k = [] := by
      simpa [horigin] using hone
    exact kept_of_settle n₀ { n with notified := rest } os (horigin ▸ hf.about) hreaches hgone
      (by simpa [settle] using hup) hnone
  · simp only [horigin, decide_false, Bool.false_eq_true, not_false_eq_true,
      List.filter_cons_of_neg, List.filter_nil, List.nil_append] at hpend
    exact (hkept k hk).settle_other hf.about horigin hpend.symm

/-- **No step loses a reception**, unless the coordinator goes down with it. -/
theorem Conserved.keeps (hn : Conserved n) (hrun : Run Node.step anyStep n₀ os n)
    (hkept : ∀ k < n.nextOrigin, Kept n₀ k os n) (h : Steps n e t o) (hup : t.alive = true) :
    ∀ k < t.nextOrigin, Kept n₀ k (os ++ o) t := by
  intro k hk
  cases h with
  | skipped _ => exact (hkept k hk).still (by simp) (.refl _)
  | lost _ => exact (hkept k hk).still (by simp) (.refl _)
  | finished _ => cases hup
  | attempted _ _ _ => exact (hkept k hk).still (List.forall_mem_singleton.mpr rfl) (.refl _)
  | queued _ => exact (hkept k hk).still (by simp) (.refl _)
  | received _ _ => exact hn.keeps_receive hrun hkept _ _ hup hk
  | tookMail _ hbox => exact hn.keeps_mail hkept hbox _ hk
  | fired hget => exact (hkept k hk).still (by simp) (pending_fired hget k)
  | tookRetry _ hbox => exact hn.keeps_retry hkept hbox _ hup hk
  | ranKG _ _ _ _ _ =>
      refine (hkept k hk).still (fun y hy => ?_) (.refl _)
      obtain rfl := eq_of_mem_failures hy
      rfl
  | ranO _ _ _ _ _ =>
      refine (hkept k hk).still (fun y hy => ?_) (.refl _)
      obtain rfl := eq_of_mem_failures hy
      rfl
  | ranS _ _ _ _ _ _ =>
      refine (hkept k hk).still (fun y hy => ?_) (.refl _)
      obtain rfl := eq_of_mem_failuresS hy
      rfl

end

section
variable {sk : C.SecretKey} {db : Tree C} {os : List (Obs C)} {n : Node C}

theorem conserved_of_steps (hreads : ReadsOneKind C) (horder : InOrder C)
    (hrun : Run step anyStep (init sk db) os n) : Conserved n :=
  hrun.invariant (fun _ n => Conserved n) (.init sk db) fun _ hn _ hs =>
    hn.step hreads horder (step_cases hs)

/-- Nothing is lost as long as the coordinator is up. -/
theorem kept_of_run (hreads : ReadsOneKind C) (horder : InOrder C)
    (hrun : Run step anyStep (init sk db) os n) :
    n.alive = true → ∀ k < n.nextOrigin, Kept (init sk db) k os n := by
  refine hrun.invariant (fun os n => n.alive = true → ∀ k < n.nextOrigin, Kept (init sk db) k os n)
    (fun _ k hk => by cases hk) fun hr hkept _ hs hup => ?_
  have hstep := step_cases hs
  exact (conserved_of_steps hreads horder hr).keeps hr (hkept (hstep.was_up hup)) hstep hup

end

/-- **Envelopes are conserved.** In every run a reception has at most one copy on its way.
As long as the coordinator is up none is lost: it waits for its next attempt until it is
delivered or dropped at the limit, or it was dismissed when it came. And every call that
routes a message ends in one delivery, one retry, or a drop at the limit. -/
theorem conserved_of_run (hreads : ReadsOneKind C) (horder : InOrder C) {sk : C.SecretKey}
    {db : Tree C} {os : List (Obs C)} {n : Node C}
    (hrun : Run step anyStep (init sk db) os n) :
    (∀ k, n.copies k ≤ 1) ∧
      (n.alive = true → ∀ k < n.nextOrigin, Kept (init sk db) k os n) ∧
      ∀ e a initTs attempts, n.CallsUnsafe e a initTs attempts →
        ∃ x, EndsIn n.coordinator a initTs attempts x ∧
          (∃ r, (Coordinator.handleIncomingUnsafe a initTs attempts).run n.coordinator =
            (r, n.coordinator, [x]) ∧ isPanic r = false) ∧
          ∃ t o, n.step e = some (t, o) ∧ o.filterMap carriedOut = [x] := by
  have hn : Conserved n := conserved_of_steps hreads horder hrun
  refine ⟨hn.one, kept_of_run hreads horder hrun, fun e a initTs attempts hcall => ?_⟩
  have hle : attempts.toNat ≤ 33 := by
    cases hcall with
    | incoming _ _ _ _ _ => exact Nat.zero_le _
    | checked _ hbox _ => exact hn.attempts _ (.inr (hbox ▸ List.mem_cons_self))
    | rechecked _ hbox _ _ => exact hn.attempts _ (.inr (hbox ▸ List.mem_cons_self))
  obtain ⟨r, f', hrouted, hpanic, hf'⟩ :=
    Coordinator.handleIncomingUnsafe_run a initTs attempts n.coordinator
  obtain ⟨f, t, o, hf, hstep, ho⟩ := routed_of_calls hcall
  obtain ⟨hcalm, x, hx, hends⟩ := endsIn_of_routed hreads hle hf'
  refine ⟨x, hends, ⟨r, by rw [hrouted, hx], hpanic.trans hcalm⟩, t, o, hstep, ?_⟩
  rw [ho, hf.unique hf', hx]

end Node

namespace Sample

/-! ## A message that comes too early -/

/-- The bodies of the three kinds, as texts. -/
def offlineBodies : List String := [1, 2, 3, 4, 5, 6].map offlineBodyText

/-- The bodies of the signing in the samples. -/
def signBodies : List String := partialSigs.map partialSigText

/-- The bodies of the keygen in the samples. -/
def keygenBodies : List String := [1, 2, 3, 4].map keygenBodyText

/-- A text of one kind is read; any other is not. -/
theorem length_typedCodec_read {β : Type} (sc : Scenario) (text : β → String) (bodies : List β)
    {s : String} {g : GenericProtocolMessage String} (hg : (genericCodec sc).read s = some g) :
    ((typedCodec sc text bodies).read s).toList.length =
      if g.body ∈ bodies.map text then 1 else 0 := by
  simp only [typedCodec, hg, Option.bind_some]
  cases hfind : bodies.find? fun b => decide (text b = g.body) with
  | none =>
      rw [if_neg]
      · rfl
      · rw [List.find?_eq_none] at hfind
        simpa using hfind
  | some b =>
      rw [if_pos]
      · rfl
      · have hb := List.mem_of_find?_eq_some hfind
        have htext := List.find?_some hfind
        exact List.mem_map.mpr ⟨b, hb, of_decide_eq_true htext⟩

theorem readsOneKind (sc : Scenario) : ReadsOneKind (crates sc) := by
  intro text
  have hos : ∀ b ∈ offlineBodies, b ∉ signBodies ∧ b ∉ keygenBodies := by decide +kernel
  have hsk : ∀ b ∈ signBodies, b ∉ keygenBodies := by decide +kernel
  cases hg : (genericCodec sc).read text with
  | none =>
      show ((typedCodec sc offlineBodyText _).read text).toList.length +
        ((typedCodec sc partialSigText _).read text).toList.length +
        ((typedCodec sc keygenBodyText _).read text).toList.length ≤ 1
      simp [typedCodec, hg]
  | some g =>
      have ho : ((typedCodec sc offlineBodyText [1, 2, 3, 4, 5, 6]).read text).toList.length =
          if g.body ∈ offlineBodies then 1 else 0 := length_typedCodec_read sc _ _ hg
      have hs : ((typedCodec sc partialSigText partialSigs).read text).toList.length =
          if g.body ∈ signBodies then 1 else 0 := length_typedCodec_read sc _ _ hg
      have hk : ((typedCodec sc keygenBodyText [1, 2, 3, 4]).read text).toList.length =
          if g.body ∈ keygenBodies then 1 else 0 := length_typedCodec_read sc _ _ hg
      show ((typedCodec sc offlineBodyText _).read text).toList.length +
        ((typedCodec sc partialSigText _).read text).toList.length +
        ((typedCodec sc keygenBodyText _).read text).toList.length ≤ 1
      rw [ho, hs, hk]
      by_cases hoffline : g.body ∈ offlineBodies
      · rw [if_pos hoffline, if_neg (hos _ hoffline).1, if_neg (hos _ hoffline).2]
      · by_cases hsign : g.body ∈ signBodies
        · rw [if_neg hoffline, if_pos hsign, if_neg (hsk _ hsign)]
        · rw [if_neg hoffline, if_neg hsign]
          split <;> decide

theorem inOrder (sc : Scenario) : InOrder (crates sc) where
  keygen k e h := by cases h
  offline k e h := by cases h

/-- Alice's message comes before Bob's own keygen request: it waits on the
clock until the group is known, and is then handed to the player, once. -/
theorem conserved_of_earlyMessage :
    ∃ os n, Run Node.step anyStep (bobsNode twoParties nothing) os n ∧ n.alive = true ∧
      n.nextOrigin = 1 ∧ n.copies 0 = 1 ∧
      os.countP (Node.schedules 0) = 1 ∧ os.countP (Node.delivers 0) = 1 ∧
      ((∀ k, n.copies k ≤ 1) ∧
        (n.alive = true → ∀ k < n.nextOrigin,
          Node.Kept (bobsNode twoParties nothing) k os n) ∧
        ∀ e a initTs attempts, n.CallsUnsafe e a initTs attempts →
          ∃ x, Node.EndsIn n.coordinator a initTs attempts x ∧
            (∃ r, (Coordinator.handleIncomingUnsafe a initTs attempts).run n.coordinator =
              (r, n.coordinator, [x]) ∧ isPanic r = false) ∧
            ∃ t o, n.step e = some (t, o) ∧ o.filterMap Node.carriedOut = [x]) := by
  obtain ⟨os, n, hrun, hcount⟩ := Run.ofTest Node.step anyStep (bobsNode twoParties nothing)
    [arrives (fromAlice "k1@73ee5cd6c20e0c08" ofFirstRound),
      .request (.keygen (keygenOf "k1" [.alice, .bob] 1)), .mail allWell, .fire 0, .retry allWell]
    (fun r => decide (r.1.alive = true ∧ r.1.nextOrigin = 1 ∧ r.1.copies 0 = 1 ∧
      r.2.countP (Node.schedules 0) = 1 ∧ r.2.countP (Node.delivers 0) = 1))
    (by decide +kernel) (admits_anyStep _ _)
  obtain ⟨hup, hcame, hone, hscheduled, hdelivered⟩ := of_decide_eq_true hcount
  exact ⟨os, n, hrun, hup, hcame, hone, hscheduled, hdelivered,
    Node.conserved_of_run (readsOneKind twoParties) (inOrder twoParties) hrun⟩

end Sample

end MpcServer

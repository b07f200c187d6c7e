import Mathlib.Data.List.Perm.Basic
import MpcServer.Actors.Steps
import MpcServer.Sample

/-!
# How often an envelope is retried

The attempts counter of a copy counts the times the envelope it stems from was
scheduled, as long as no runner sends the envelope back: an out-of-order report
starts the counter over at one. Where no such report is made there is one copy
on the clock at most, and it is dropped instead of a 34th retry.
-/

namespace MpcServer

open Rust Rust.Method Machine

variable {C : Crates}

namespace Node

/-! ## What a trace says about one reception -/

/-- A retry is scheduled for a copy of reception `k`. -/
def schedules (k : Nat) : Obs C → Bool
  | .effect (.schedule _ m) => m.message.origin = k
  | _ => false

/-- The reception is dropped. -/
def drops (k : Nat) : Obs C → Bool
  | .effect (.drop m) => m.message.origin = k
  | _ => false

/-- The reception is delivered. -/
def delivers (k : Nat) : Obs C → Bool
  | .effect (.deliverKG _ m) => m.wireMessage.origin = k
  | .effect (.deliverO _ m) => m.wireMessage.origin = k
  | .effect (.deliverS _ m) => m.wireMessage.origin = k
  | _ => false

/-- Something becomes of the reception. -/
def moves (k : Nat) (x : Obs C) : Bool := schedules k x || drops k x || delivers k x

/-- How often copies of the reception were put on the clock. -/
def timesScheduled (k : Nat) (os : List (Obs C)) : Nat := os.countP (schedules k)

/-- After a drop there is neither a retry nor a delivery. -/
def SilentAfterDrop (k : Nat) (os : List (Obs C)) : Prop :=
  os.Pairwise fun x y => drops k x = true → schedules k y = false ∧ delivers k y = false

theorem moves_of_quiet {k : Nat} {o : Effect C} (h : Quiet o) : moves k (.effect o) = false := by
  cases o <;> first | rfl | cases h

theorem moves_effects {c : Coordinator C} {f : Fate} {k j : Nat} (hf : f.About j) (hne : j ≠ k) :
    ∀ o ∈ c.effects f, moves k (.effect o) = false := by
  intro o ho
  cases f with
  | gone => cases ho
  | panicked => cases ho
  | retried m =>
      have hm : m.message.origin ≠ k := fun h => hne (hf.symm.trans h)
      simp only [Coordinator.effects, Coordinator.retryEffects] at ho
      split at ho
      · obtain rfl := List.mem_singleton.mp ho
        simp [moves, schedules, drops, delivers, hm]
      · obtain rfl := List.mem_singleton.mp ho
        simp [moves, schedules, drops, delivers, hm]
  | delivered m =>
      have hm : m.origin ≠ k := fun h => hne (hf.symm.trans h)
      simp only [Coordinator.effects, Coordinator.deliveries, List.mem_append, Option.mem_toList,
        Coordinator.delivery, Option.bind_eq_some_iff, Option.map_eq_some_iff] at ho
      obtain (⟨_, -, _, -, rfl⟩ | ⟨_, -, _, -, rfl⟩) | ⟨_, -, _, -, rfl⟩ := ho <;>
        simp [moves, schedules, drops, delivers, hm]

theorem effects_delivered {c : Coordinator C} {m : Arrival} {o : Effect C}
    (ho : o ∈ c.effects (.delivered m)) (k : Nat) :
    schedules k (.effect o) = false ∧ drops k (.effect o) = false ∧ scheduled o = none := by
  simp only [Coordinator.effects, Coordinator.deliveries, List.mem_append, Option.mem_toList,
    Coordinator.delivery, Option.bind_eq_some_iff, Option.map_eq_some_iff] at ho
  obtain (⟨_, -, _, -, rfl⟩ | ⟨_, -, _, -, rfl⟩) | ⟨_, -, _, -, rfl⟩ := ho <;>
    exact ⟨rfl, rfl, rfl⟩

/-! ## The copies on the clock -/

/-- The retries of reception `k` that wait for their timer or to be taken up. -/
def pending (n : Node C) (k : Nat) : List RetryMessage :=
  (n.timers ++ n.notified).filter fun m => m.message.origin = k

/-- What the fate of a copy puts on the clock. -/
def onClock : Fate → List RetryMessage
  | .retried m => if 33 < m.attempts then [] else [m]
  | _ => []

theorem settle_timers (n : Node C) (f : Fate) : (n.settle f).timers = n.timers ++ onClock f := by
  unfold settle
  rw [applyEffects_timers]
  cases f with
  | gone => rfl
  | panicked => rfl
  | retried m =>
      simp only [Coordinator.effects, Coordinator.retryEffects, onClock]
      split <;> rfl
  | delivered m =>
      have hnil : (n.coordinator.effects (.delivered m)).filterMap scheduled = [] :=
        List.filterMap_eq_nil_iff.mpr fun o ho => (effects_delivered ho 0).2.2
      rw [hnil]
      rfl

theorem settle_pending (n : Node C) (f : Fate) (k : Nat) :
    ((n.settle f).pending k).Perm
      (n.pending k ++ (onClock f).filter fun m => m.message.origin = k) := by
  unfold pending
  rw [settle_timers, ← List.filter_append]
  refine List.Perm.filter _ ?_
  simp only [settle, applyEffects_notified, List.append_assoc]
  exact List.Perm.append_left _ List.perm_append_comm

/-- The fate of a copy of another reception puts nothing on the clock for this one. -/
theorem pending_settle_other (n : Node C) {f : Fate} {j k : Nat} (hf : f.About j) (hne : j ≠ k) :
    ((n.settle f).pending k).Perm (n.pending k) := by
  have hnil : (onClock f).filter (fun m => m.message.origin = k) = [] := by
    refine List.filter_eq_nil_iff.mpr fun m hmem => ?_
    cases f with
    | retried m' =>
        simp only [onClock] at hmem
        split at hmem
        · cases hmem
        · obtain rfl := List.mem_singleton.mp hmem
          simpa using fun h => hne (hf.symm.trans h)
    | _ => cases hmem
  have hpend := settle_pending n f k
  rwa [hnil, List.append_nil] at hpend

/-- Quiet effects move no copy. -/
theorem moves_of_allQuiet {k : Nat} {es : List (Effect C)} (h : ∀ e ∈ es, Quiet e) :
    ∀ x ∈ es.map Obs.effect, moves k x = false := by
  intro x hx
  obtain ⟨e, he, rfl⟩ := List.mem_map.mp hx
  exact moves_of_quiet (h e he)

theorem pending_of_allQuiet {es : List (Effect C)} (h : ∀ e ∈ es, Quiet e) (n : Node C) (k : Nat) :
    (es.foldl applyEffect n).pending k = n.pending k := by
  simp only [pending, applyEffects_timers, applyEffects_notified, scheduled_of_quiet h,
    List.append_nil]

/-- A timer that fires moves its retry on; it is pending before and after. -/
theorem pending_fired {n : Node C} {i : Nat} {m : RetryMessage} (hget : n.timers[i]? = some m)
    (k : Nat) : (({ n with timers := n.timers.eraseIdx i, notified := n.notified ++ [m] } :
      Node C).pending k).Perm (n.pending k) := by
  unfold pending
  refine List.Perm.filter _ ?_
  obtain ⟨hi, rfl⟩ := List.getElem?_eq_some_iff.mp hget
  have htimers := List.getElem_cons_eraseIdx_perm hi
  calc n.timers.eraseIdx i ++ (n.notified ++ [n.timers[i]])
      _ = n.timers.eraseIdx i ++ n.notified ++ [n.timers[i]] := by rw [List.append_assoc]
      List.Perm _ (n.timers[i] :: (n.timers.eraseIdx i ++ n.notified)) :=
        List.perm_append_singleton _ _
      List.Perm _ (n.timers ++ n.notified) := htimers.append_right _

/-- A retry that is taken up was pending. -/
theorem pending_taken {n : Node C} {m : RetryMessage} {rest : List RetryMessage}
    (hbox : n.notified = m :: rest) (k : Nat) :
    (n.pending k).Perm (([m].filter fun m => m.message.origin = k) ++
      ({ n with notified := rest } : Node C).pending k) := by
  unfold pending
  rw [hbox, ← List.filter_append]
  exact List.Perm.filter _ (by simp)

@[simp] theorem settle_mailbox (n : Node C) (f : Fate) : (n.settle f).mailbox = n.mailbox := by
  simp [settle]

@[simp] theorem settle_nextOrigin (n : Node C) (f : Fate) :
    (n.settle f).nextOrigin = n.nextOrigin := by
  simp [settle]

/-! ## Attempts -/

theorem incoming_attempts {c : Coordinator C} {ctx : Ctx} {msg : Arrival} {m : RetryMessage}
    (h : Coordinator.Incoming c ctx msg (.retried m)) : m.attempts.toNat = 1 := by
  cases h with
  | unknown _ _ => rfl
  | passed _ hr =>
      cases hr with
      | retried _ hadd => exact toNat_addU16 hadd (by decide)

theorem retried_attempts {c : Coordinator C} {ctx : Ctx} {m m' : RetryMessage}
    (h : Coordinator.Retried c ctx m (.retried m')) (hm : m.attempts.toNat ≤ 33) :
    m'.attempts.toNat = m.attempts.toNat + 1 := by
  have hlt : m.attempts.toNat + (1 : UInt16).toNat < 2 ^ 16 := by
    rw [UInt16.toNat_one]
    omega
  cases h with
  | checked _ hr =>
      cases hr with
      | retried _ hadd => exact toNat_addU16 hadd hlt
  | passed _ _ hr =>
      cases hr with
      | retried _ hadd => exact toNat_addU16 hadd hlt
  | failed _ _ hadd => exact toNat_addU16 hadd hlt

/-! ## The count -/

/-- No copy of reception `k` is on the clock; it was scheduled no more than 33
times and never dropped. -/
structure OffClock (k : Nat) (os : List (Obs C)) (n : Node C) : Prop where
  came : k < n.nextOrigin
  none : n.pending k = []
  bound : timesScheduled k os ≤ 33
  kept : ∀ x ∈ os, drops k x = false

/-- The one copy of reception `k` on the clock, if there is one, counts how
often the reception was scheduled. -/
structure Counted (k : Nat) (os : List (Obs C)) (n : Node C) : Prop where
  fresh : n.nextOrigin ≤ k → n.pending k = [] ∧ ∀ x ∈ os, moves k x = false
  one : (n.pending k).length ≤ 1
  attempts : ∀ m ∈ n.pending k, m.attempts.toNat = timesScheduled k os
  bound : timesScheduled k os ≤ 33
  dropped : (∃ x ∈ os, drops k x = true) → n.pending k = []
  silent : SilentAfterDrop k os

theorem Counted.init (k : Nat) (sk : C.SecretKey) (db : Tree C) : Counted k [] (init sk db) where
  fresh _ := ⟨rfl, by simp⟩
  one := by simp [pending, Node.init]
  attempts _ h := by cases h
  bound := by simp [timesScheduled]
  dropped h := by simp at h
  silent := List.Pairwise.nil

section
variable {k : Nat} {os o : List (Obs C)} {n t : Node C}

theorem timesScheduled_append (k : Nat) (os o : List (Obs C)) :
    timesScheduled k (os ++ o) = timesScheduled k os + timesScheduled k o :=
  List.countP_append

theorem timesScheduled_eq_zero (h : ∀ x ∈ o, moves k x = false) : timesScheduled k o = 0 := by
  refine List.countP_eq_zero.mpr fun x hx => ?_
  have := h x hx
  simp only [moves, Bool.or_eq_false_iff] at this
  simp [this.1.1]

theorem SilentAfterDrop.append_of_still (hs : SilentAfterDrop k os)
    (h : ∀ x ∈ o, moves k x = false) : SilentAfterDrop k (os ++ o) := by
  have hmove : ∀ x ∈ o, schedules k x = false ∧ drops k x = false ∧ delivers k x = false := by
    intro x hx
    have := h x hx
    simp only [moves, Bool.or_eq_false_iff] at this
    exact ⟨this.1.1, this.1.2, this.2⟩
  refine List.pairwise_append.mpr ⟨hs, ?_, fun x _ y hy _ => ⟨(hmove y hy).1, (hmove y hy).2.2⟩⟩
  refine List.Pairwise.imp_of_mem (R := fun _ _ => True) (fun {x y} hx _ _ hd => ?_) ?_
  · rw [(hmove x hx).2.1] at hd
    cases hd
  · exact List.pairwise_of_forall fun _ _ => trivial

theorem SilentAfterDrop.of_none (h : ∀ x ∈ os, drops k x = false) : SilentAfterDrop k os := by
  refine List.Pairwise.imp_of_mem (R := fun _ _ => True) (fun {x y} hx _ _ hd => ?_) ?_
  · rw [h x hx] at hd
    cases hd
  · exact List.pairwise_of_forall fun _ _ => trivial

/-- A step that moves no copy of reception `k`. -/
theorem Counted.still (hc : Counted k os n) (ho : ∀ x ∈ o, moves k x = false)
    (hp : (t.pending k).Perm (n.pending k)) (hn : n.nextOrigin ≤ t.nextOrigin) :
    Counted k (os ++ o) t := by
  have htimes : timesScheduled k (os ++ o) = timesScheduled k os := by
    rw [timesScheduled_append, timesScheduled_eq_zero ho, Nat.add_zero]
  have hnil : n.pending k = [] → t.pending k = [] := fun h => by
    rw [h] at hp
    exact hp.eq_nil
  refine ⟨fun hfresh => ?_, ?_, fun m hmem => ?_, ?_, fun hd => ?_, ?_⟩
  · obtain ⟨hpend, hstill⟩ := hc.fresh (Nat.le_trans hn hfresh)
    refine ⟨hnil hpend, fun x hx => ?_⟩
    exact (List.mem_append.mp hx).elim (hstill x) (ho x)
  · rw [hp.length_eq]
    exact hc.one
  · rw [htimes]
    exact hc.attempts m (hp.mem_iff.mp hmem)
  · rw [htimes]
    exact hc.bound
  · obtain ⟨x, hx, hd⟩ := hd
    rcases List.mem_append.mp hx with hx | hx
    · exact hnil (hc.dropped ⟨x, hx, hd⟩)
    · have := ho x hx
      simp [moves, hd] at this
  · exact hc.silent.append_of_still ho

/-- A copy of another reception meets its fate. -/
theorem Counted.settle_other (hc : Counted k os n) {j : Nat} {f : Fate} (hf : f.About j)
    (hne : j ≠ k) (hp : (t.pending k).Perm (n.pending k)) (hn : n.nextOrigin ≤ t.nextOrigin) :
    Counted k (os ++ (t.coordinator.effects f).map .effect) (t.settle f) := by
  refine hc.still ?_ ((pending_settle_other t hf hne).trans hp) (by simpa using hn)
  intro x hx
  obtain ⟨e, he, rfl⟩ := List.mem_map.mp hx
  exact moves_effects hf hne e he

/-- The one copy of reception `k` meets its fate. -/
theorem OffClock.settle_own (hc : OffClock k os n) {f : Fate}
    (hattempts : ∀ m, f = .retried m → m.message.origin = k ∧
      m.attempts.toNat = timesScheduled k os + 1) :
    Counted k (os ++ (n.coordinator.effects f).map .effect) (n.settle f) := by
  have hpend := settle_pending n f k
  rw [hc.none, List.nil_append] at hpend
  have hcame : ¬ (n.settle f).nextOrigin ≤ k := by
    have := hc.came
    simp only [settle_nextOrigin]
    omega
  -- every fate but a retry leaves the count and the clock as they are
  have hquiet : (∀ o ∈ n.coordinator.effects f, schedules k (.effect o) = false ∧
      drops k (.effect o) = false) → onClock f = [] →
      Counted k (os ++ (n.coordinator.effects f).map .effect) (n.settle f) := by
    intro ho hclock
    rw [hclock] at hpend
    have hnil : (n.settle f).pending k = [] := hpend.eq_nil
    have hkept : ∀ x ∈ os ++ (n.coordinator.effects f).map .effect, drops k x = false := by
      intro x hx
      rcases List.mem_append.mp hx with hx | hx
      · exact hc.kept x hx
      · obtain ⟨e, he, rfl⟩ := List.mem_map.mp hx
        exact (ho e he).2
    have htimes : timesScheduled k (os ++ (n.coordinator.effects f).map .effect) =
        timesScheduled k os := by
      rw [timesScheduled_append, Nat.add_eq_left]
      refine List.countP_eq_zero.mpr fun x hx => ?_
      obtain ⟨e, he, rfl⟩ := List.mem_map.mp hx
      simp [(ho e he).1]
    exact ⟨fun h => absurd h hcame, by simp [hnil], by simp [hnil], htimes ▸ hc.bound,
      fun _ => hnil, .of_none hkept⟩
  cases f with
  | gone => exact hquiet (by simp [Coordinator.effects]) rfl
  | panicked => exact hquiet (by simp [Coordinator.effects]) rfl
  | delivered m =>
      exact hquiet (fun o ho => ⟨(effects_delivered ho k).1, (effects_delivered ho k).2.1⟩) rfl
  | retried m =>
      obtain ⟨horigin, hcount⟩ := hattempts m rfl
      by_cases hmax : 33 < m.attempts
      · -- the copy is dropped
        simp only [Coordinator.effects, Coordinator.retryEffects, if_pos hmax, List.map_cons,
          List.map_nil]
        simp only [onClock, if_pos hmax, List.filter_nil] at hpend
        have hnil : (n.settle (.retried m)).pending k = [] := hpend.eq_nil
        have htimes : timesScheduled k (os ++ [.effect (.drop m)] : List (Obs C)) =
            timesScheduled k os := by
          simp [timesScheduled, schedules]
        refine ⟨fun h => absurd h hcame, by simp [hnil], by simp [hnil], htimes ▸ hc.bound,
          fun _ => hnil, ?_⟩
        refine List.pairwise_append.mpr ⟨SilentAfterDrop.of_none hc.kept,
          List.pairwise_singleton _ _, ?_⟩
        intro x hx y _ hd
        rw [hc.kept x hx] at hd
        cases hd
      · -- the copy goes on the clock once more
        simp only [Coordinator.effects, Coordinator.retryEffects, if_neg hmax, List.map_cons,
          List.map_nil]
        simp only [onClock, if_neg hmax, horigin, decide_true, List.filter_cons_of_pos,
          List.filter_nil] at hpend
        have hone : (n.settle (.retried m)).pending k = [m] := hpend.eq_singleton
        have htimes : timesScheduled k
            (os ++ [.effect (.schedule (Coordinator.retryDelay m.attempts) m)] : List (Obs C)) =
            timesScheduled k os + 1 := by
          simp [timesScheduled, schedules, horigin]
        have hle : m.attempts.toNat ≤ 33 := by
          simpa [UInt16.lt_iff_toNat_lt] using hmax
        refine ⟨fun h => absurd h hcame, by simp [hone], ?_, by omega, ?_, ?_⟩
        · simp only [hone, List.mem_singleton, forall_eq]
          omega
        · rintro ⟨x, hx, hd⟩
          rcases List.mem_append.mp hx with hx | hx
          · rw [hc.kept x hx] at hd
            cases hd
          · obtain rfl := List.mem_singleton.mp hx
            cases hd
        · refine .of_none fun x hx => ?_
          rcases List.mem_append.mp hx with hx | hx
          · exact hc.kept x hx
          · obtain rfl := List.mem_singleton.mp hx
            rfl

/-! ## Steps and runs -/

/-- The coordinator does not take up a report that reception `k` is out of order. -/
def TakenInOrder (k : Nat) (n : Node C) : Event → Prop
  | .mail _ => ∀ m rest, n.mailbox = m :: rest → ∀ current round a,
      reported m = some (.receivedOutOfOrderMessage current round, a) → a.origin ≠ k
  | _ => True

/-- The mail does not say that the reception is out of order. -/
def inOrder (k : Nat) (m : Mail C) : Bool :=
  match reported m with
  | some (.receivedOutOfOrderMessage _ _, a) => a.origin ≠ k
  | _ => true

theorem inOrder_iff {m : Mail C} : inOrder k m = true ↔ ∀ current round a,
    reported m = some (.receivedOutOfOrderMessage current round, a) → a.origin ≠ k := by
  unfold inOrder
  split
  · rename_i hm
    simp [hm]
  · rename_i hnot
    exact iff_of_true rfl fun current round a hm => absurd hm (hnot _ _ _)

instance (k : Nat) (n : Node C) (e : Event) : Decidable (TakenInOrder k n e) :=
  match e with
  | .mail _ => decidable_of_iff (∀ m ∈ n.mailbox.head?, inOrder k m = true) (by
      simp only [TakenInOrder, inOrder_iff, Option.mem_def]
      refine ⟨fun h m rest hbox => h m (by rw [hbox]; rfl), fun h m hm => ?_⟩
      obtain ⟨rest, hbox⟩ := List.head?_eq_some_iff.mp hm
      exact h m rest hbox)
  | .wire _ _ | .finished | .sendOne _ | .request _ | .fire _ | .retry _ | .tickKG _ _
  | .playKG _ _ | .tickO _ _ | .playO _ _ | .startS _ | .playS _ => .isTrue trivial

/-- What comes in begins its own count and is none of the others'. -/
theorem Counted.receive (hc : Counted k os n) (w : WireMessage) (amb : Ambient) :
    Counted k (os ++ (n.receive w amb).2) (n.receive w amb).1 := by
  obtain ⟨f, hf, heq⟩ := receive_fate n w amb
  rw [heq]
  by_cases hk : n.nextOrigin = k
  · -- the reception itself: its copies are counted from here on
    subst hk
    obtain ⟨hnone, hstill⟩ := hc.fresh (Nat.le_refl _)
    have hzero : timesScheduled n.nextOrigin (os ++ [.received n.nextOrigin w]) = 0 := by
      rw [timesScheduled_append, timesScheduled_eq_zero hstill]
      rfl
    have hoff : OffClock n.nextOrigin (os ++ [.received n.nextOrigin w])
        { n with nextOrigin := n.nextOrigin + 1 } := by
      refine ⟨Nat.lt_succ_self _, hnone, by omega, fun x hx => ?_⟩
      rcases List.mem_append.mp hx with hx | hx
      · have := hstill x hx
        simp only [moves, Bool.or_eq_false_iff] at this
        exact this.1.2
      · obtain rfl := List.mem_singleton.mp hx
        rfl
    have hown := hoff.settle_own (f := f) fun m hm => by
      subst hm
      exact ⟨hf.about, by rw [incoming_attempts hf, hzero]⟩
    rwa [List.append_assoc] at hown
  · have hstill : Counted k (os ++ [.received n.nextOrigin w])
        { n with nextOrigin := n.nextOrigin + 1 } :=
      hc.still (by simp [moves, schedules, drops, delivers]) (.refl _) (Nat.le_succ _)
    have hother := hstill.settle_other hf.about hk (.refl _) (Nat.le_refl _)
    rwa [List.append_assoc] at hother

/-- A mail is taken up: only the report of a message out of order schedules a copy. -/
theorem Counted.takeMail (hc : Counted k os n) {m : Mail C} {rest : List (Mail C)}
    (hbox : n.mailbox = m :: rest) {amb : Ambient} (hg : TakenInOrder k n (.mail amb)) :
    Counted k (os ++ (n.takeMail m rest amb).2) (n.takeMail m rest amb).1 := by
  have hstill : Counted k (os ++ [.handled m]) { n with mailbox := rest } :=
    hc.still (by simp [moves, schedules, drops, delivers]) (.refl _) (Nat.le_refl _)
  cases hm : reported m with
  | some r =>
      obtain ⟨error, a⟩ := r
      rw [takeMail_reported n hm]
      by_cases hk : a.origin = k
      · -- an error that is only logged
        have hgone : Coordinator.fateOfError error a (n.ctx amb) = .gone := by
          cases error with
          | other _ => rfl
          | receivedOutOfOrderMessage _ _ => exact absurd hk (hg _ _ hbox _ _ _ hm)
        rw [hgone]
        have hother := hstill.settle_other (j := k + 1) (f := .gone) trivial (by omega)
          (.refl _) (Nat.le_refl _)
        rwa [List.append_assoc] at hother
      · have hother := hstill.settle_other (f := Coordinator.fateOfError error a (n.ctx amb))
          (j := a.origin) (by cases error <;> trivial) hk (.refl _) (Nat.le_refl _)
        rwa [List.append_assoc] at hother
  | none =>
      -- no other mail is about an envelope, so its handler schedules and drops none
      obtain ⟨r, c, es, hh, heq⟩ := takeMail_handled n hm rest amb
      rw [heq]
      have hquiet := hstill.still (moves_of_allQuiet hh.quiet)
        (.of_eq (pending_of_allQuiet hh.quiet
          { n with mailbox := rest, coordinator := c, alive := !isPanic r } k)) (by simp)
      rwa [List.append_assoc] at hquiet

/-- A retry is taken up. -/
theorem Counted.takeRetry (hc : Counted k os n) {m : RetryMessage} {rest : List RetryMessage}
    (hbox : n.notified = m :: rest) (amb : Ambient) :
    Counted k (os ++ (n.takeRetry m rest amb).2) (n.takeRetry m rest amb).1 := by
  obtain ⟨f, hf, heq⟩ := takeRetry_fate n m rest amb
  rw [heq]
  have hpend := pending_taken hbox k
  by_cases hk : m.message.origin = k
  · -- the one copy on the clock
    simp only [hk, decide_true, List.filter_cons_of_pos, List.filter_nil,
      List.singleton_append] at hpend
    have hmem : m ∈ n.pending k := hpend.mem_iff.mpr List.mem_cons_self
    have hnone : ({ n with notified := rest } : Node C).pending k = [] := by
      have hlen := hpend.length_eq
      have hone := hc.one
      rw [List.length_cons] at hlen
      exact List.length_eq_zero_iff.mp (by omega)
    have hcame : k < n.nextOrigin := by
      by_contra hnot
      rw [(hc.fresh (by omega)).1] at hmem
      cases hmem
    have hoff : OffClock k os { n with notified := rest } := by
      refine ⟨hcame, hnone, hc.bound, fun x hx => ?_⟩
      by_contra hd
      rw [hc.dropped ⟨x, hx, by simpa using hd⟩] at hmem
      cases hmem
    refine hoff.settle_own fun m' hm' => ?_
    subst hm'
    have hcount := hc.attempts m hmem
    have hbound := hc.bound
    exact ⟨hf.about.trans hk, by rw [retried_attempts hf (by omega), hcount]⟩
  · simp only [hk, decide_false, Bool.false_eq_true, not_false_eq_true,
      List.filter_cons_of_neg, List.filter_nil, List.nil_append] at hpend
    exact hc.settle_other hf.about hk hpend.symm (Nat.le_refl _)

theorem Counted.step (hc : Counted k os n) {e : Event} (hg : TakenInOrder k n e)
    (h : Steps n e t o) : Counted k (os ++ o) t := by
  cases h with
  | skipped _ => exact hc.still (by simp) (.refl _) (Nat.le_refl _)
  | lost _ => exact hc.still (by simp) (.refl _) (Nat.le_refl _)
  | finished _ => exact hc.still (List.forall_mem_singleton.mpr rfl) (.refl _) (Nat.le_refl _)
  | attempted _ _ _ => exact hc.still (List.forall_mem_singleton.mpr rfl) (.refl _) (Nat.le_refl _)
  | queued _ => exact hc.still (by simp) (.refl _) (Nat.le_refl _)
  | received _ _ => exact hc.receive _ _
  | tookMail _ hbox => exact hc.takeMail hbox hg
  | @fired i m hget =>
      -- the copy moves from the timers to the notified ones, and both count as pending
      exact hc.still (by simp) (pending_fired hget k) (Nat.le_refl _)
  | tookRetry _ hbox => exact hc.takeRetry hbox _
  | ranKG _ _ _ _ _ =>
      -- all a runner puts out for itself is a failure
      refine hc.still (fun y hy => ?_) (.refl _) (Nat.le_refl _)
      obtain rfl := eq_of_mem_failures hy
      rfl
  | ranO _ _ _ _ _ =>
      refine hc.still (fun y hy => ?_) (.refl _) (Nat.le_refl _)
      obtain rfl := eq_of_mem_failures hy
      rfl
  | ranS _ _ _ _ _ _ =>
      refine hc.still (fun y hy => ?_) (.refl _) (Nat.le_refl _)
      obtain rfl := eq_of_mem_failuresS hy
      rfl

end

/-- **At most 33 retries.** In a run in which the coordinator takes up no report
that reception `k` is out of order, its copies are scheduled at most 33 times, and after a drop
neither scheduled nor delivered. -/
theorem timesScheduled_le {k : Nat} {sk : C.SecretKey} {db : Tree C} {os : List (Obs C)}
    {n : Node C} (hrun : Run step (TakenInOrder k) (init sk db) os n) :
    timesScheduled k os ≤ 33 ∧ SilentAfterDrop k os := by
  have hc : Counted k os n :=
    hrun.invariant _ (.init k sk db) fun _ hc hg hs => hc.step hg (step_cases hs)
  exact ⟨hc.bound, hc.silent⟩

end Node

namespace Sample

/-! ## A message that comes back for ever -/

/-- Alice's message of the first round, and another one for Bob alone. -/
def ofFirstRound : GenericProtocolMessage String :=
  { sender := 1, receiver := none, body := keygenBodyText 1 }

/-- Another one of hers, for Bob alone. -/
def alsoOfFirstRound : GenericProtocolMessage String :=
  { sender := 1, receiver := some 2, body := sealed .bob (keygenBodyText 1) }

/-- The messages of the two. -/
def twoParties : Scenario where
  wires := [fromAlice "k1@73ee5cd6c20e0c08" ofFirstRound,
    fromAlice "k1@73ee5cd6c20e0c08" alsoOfFirstRound]
  messages := [ofFirstRound, alsoOfFirstRound,
    { sender := 1, receiver := some 2, body := keygenBodyText 1 },
    { sender := 2, receiver := none, body := keygenBodyText 1 },
    { sender := 2, receiver := none, body := keygenBodyText 2 }]

/-- The envelope waits for its group through three rounds; then Bob's player is there, takes
it, and reports the next one, which is taken up as out of order. -/
theorem timesScheduled_le_unknownGroup :
    ∃ os n, Run Node.step (Node.TakenInOrder 0) (bobsNode twoParties nothing) os n ∧
      Node.timesScheduled 0 os = 3 ∧ Node.timesScheduled 1 os = 1 ∧
        (Node.timesScheduled 0 os ≤ 33 ∧ Node.SilentAfterDrop 0 os) := by
  obtain ⟨os, n, hrun, hcount⟩ := Run.ofGuardedTest Node.step (Node.TakenInOrder 0)
    (bobsNode twoParties nothing)
    [arrives (fromAlice "k1@73ee5cd6c20e0c08" ofFirstRound), .fire 0, .retry allWell, .fire 0,
      .retry allWell, .request (.keygen (keygenOf "k1" [.alice, .bob] 1)), .mail allWell,
      .tickKG 0 0, .mail allWell, .fire 0, .retry allWell, .playKG 0 0, .mail allWell,
      arrives (fromAlice "k1@73ee5cd6c20e0c08" alsoOfFirstRound), .playKG 0 0, .mail allWell]
    (fun r => decide (Node.timesScheduled 0 r.2 = 3 ∧ Node.timesScheduled 1 r.2 = 1))
    (by decide +kernel)
  obtain ⟨hthree, hone⟩ := of_decide_eq_true hcount
  exact ⟨os, n, hrun, hthree, hone, Node.timesScheduled_le hrun⟩

/-- Bob's player is past the first round when Alice's other message comes: it
is reported out of order, goes round as a first attempt, and is reported again. -/
theorem timesScheduled_of_outOfOrder :
    ∃ os n, Run Node.step anyStep (bobsNode twoParties nothing) os n ∧
      33 < Node.timesScheduled 1 os := by
  obtain ⟨os, n, hrun, hcount⟩ := Run.ofTest Node.step anyStep (bobsNode twoParties nothing)
    ([.request (.keygen (keygenOf "k1" [.alice, .bob] 1)), .mail allWell, .tickKG 0 0,
      .mail allWell, arrives (fromAlice "k1@73ee5cd6c20e0c08" ofFirstRound), .playKG 0 0,
      .mail allWell, arrives (fromAlice "k1@73ee5cd6c20e0c08" alsoOfFirstRound), .playKG 0 0,
      .mail allWell] ++
      (List.replicate 33 [.fire 0, .retry allWell, .playKG 0 0, .mail allWell]).flatten)
    (fun r => decide (Node.timesScheduled 1 r.2 = 34)) (by decide +kernel) (admits_anyStep _ _)
  exact ⟨os, n, hrun, by rw [of_decide_eq_true hcount]; decide⟩

end Sample

end MpcServer

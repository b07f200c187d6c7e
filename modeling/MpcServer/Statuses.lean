import MpcServer.Actors.Yields
import MpcServer.System

/-!
# Statuses are paid for

A request is handed on: from the mailbox to a player, from the player to its
output, from there to a signer. Wherever it is there is one thing due for its
id, a status is sent where it is handed on, and a final status where it is
used up.
-/

namespace MpcServer

open Rust Rust.Method

variable {C : Crates}

/-- Nothing comes behind it. -/
def RequestStatus.isFinal : RequestStatus → Bool
  | .done | .error => true
  | _ => false

namespace Node

/-! ## What is due for an id -/

/-- The mail is a request with the id, or an output that answers one. -/
def concerns (x : String) : Mail C → Bool
  | .request req => req.requestId = x
  | .outputKG _ out => out.input.requestId = x
  | .outputO _ out => out.input.inner.requestId = x
  | .outputS _ out => out.input.inner.requestId = x
  | .outgoing _ | .errorKG _ | .errorO _ => false

/-- What a keygen player has still to yield for the id. -/
noncomputable def dueKG (x : String) (p : PlayerKG C) : Nat :=
  if p.input.requestId = x then yieldsLeft p.state else 0

/-- What an offline player has still to yield for the id. -/
noncomputable def dueO (x : String) (p : PlayerO C) : Nat :=
  if p.input.inner.requestId = x then yieldsLeft p.state else 0

/-- What a signer has still to yield for the id. -/
def dueS (x : String) (s : Signer C) : Nat :=
  if s.input.inner.requestId = x then s.yieldsLeft else 0

/-- What is due for an id: mail that concerns it, and outputs its runners can
still yield. -/
noncomputable def due (n : Node C) (x : String) : Nat :=
  n.mailbox.countP (concerns x) + Tally.total (dueKG x) (n.playersKG.map (·.state)) +
    Tally.total (dueO x) (n.playersO.map (·.state)) +
      Tally.total (dueS x) (n.signers.map (·.state))

/-- What an effect makes due: the outputs of the runner it starts. -/
noncomputable def dueOf (x : String) : Effect C → Nat
  | .startKG _ p => dueKG x p
  | .startO _ p => dueO x p
  | .startS _ s => dueS x s
  | _ => 0

theorem due_applyEffect (n : Node C) (x : String) (e : Effect C) :
    (n.applyEffect e).due x = n.due x + dueOf x e := by
  cases e <;> simp [applyEffect, due, dueOf, map_modify_of_eq] <;> omega

theorem due_applyEffects (n : Node C) (x : String) (es : List (Effect C)) :
    (es.foldl applyEffect n).due x = n.due x + Tally.total (dueOf x) es := by
  induction es generalizing n with
  | nil => simp
  | cons e es ih =>
      rw [List.foldl_cons, ih, due_applyEffect, Tally.total_cons, Nat.add_assoc]

theorem dueKG_le (x : String) (p : PlayerKG C) :
    dueKG x p ≤ if p.input.requestId = x then 1 else 0 :=
  Tally.ite_le_ite (yieldsLeft_le p.state)

theorem dueO_le (x : String) (p : PlayerO C) :
    dueO x p ≤ if p.input.inner.requestId = x then 1 else 0 :=
  Tally.ite_le_ite (yieldsLeft_le p.state)

theorem dueS_le (x : String) (s : Signer C) :
    dueS x s ≤ if s.input.inner.requestId = x then 1 else 0 :=
  Tally.ite_le_ite s.yieldsLeft_le

/-- The settling of an envelope makes nothing due and sends no status. -/
theorem dueOf_of_idle {x : String} {e : Effect C} (h : Idle (.effect e)) : dueOf x e = 0 := by
  cases e <;> first | rfl | cases h

theorem reportOf_of_idle {y : Obs C} (h : Idle y) : System.reportOf y = none := by
  cases y with
  | effect e => cases e <;> first | rfl | cases h
  | _ => rfl

/-! ## One mail -/

/-- The statuses among the effects of a handler. -/
def reports (es : List (Effect C)) : List CheckResultResponse :=
  (es.map Obs.effect).filterMap System.reportOf

theorem reports_of_sends {es : List (Effect C)} (h : ∀ e ∈ es, ∃ m, e = .send m) :
    reports es = [] := by
  refine List.filterMap_eq_nil_iff.mpr fun y hy => ?_
  obtain ⟨e, he, rfl⟩ := List.mem_map.mp hy
  obtain ⟨m, rfl⟩ := h e he
  rfl

/-- What a mail is used up for: nothing, one runner with a status on the way,
or a final status. -/
inductive Spends (m : Mail C) (es : List (Effect C)) : Prop
  | silently : reports es = [] → (∀ x, Tally.total (dueOf x) es = 0) → Spends m es
  | onwards {r} : reports es = [r] → r.requestStatus = .processing →
      concerns r.requestId m = true →
      (∀ x, Tally.total (dueOf x) es ≤ if r.requestId = x then 1 else 0) → Spends m es
  | lastly {r} : reports es = [r] → r.requestStatus.isFinal = true →
      concerns r.requestId m = true → (∀ x, Tally.total (dueOf x) es = 0) → Spends m es

theorem Handled.spends {c c' : Coordinator C} {ctx : Ctx} {m : Mail C}
    {r : Except (Stop String) Unit} {es : List (Effect C)} (h : Handled c ctx m r c' es) :
    Spends m es := by
  cases h with
  | @keygenRequest req _ _ _ h =>
      have hown : concerns (processing req.requestId .keygen).requestId
          (.request (.keygen req) : Mail C) = true := by
        simp [concerns, processing, Request.requestId]
      cases h with
      | refused _ => exact .onwards rfl rfl hown fun x => Nat.zero_le _
      | began _ _ =>
          refine .onwards rfl rfl hown fun x => ?_
          simp only [Tally.total_cons, Tally.total_nil, dueOf, Nat.zero_add, Nat.add_zero]
          exact dueKG_le x _
  | @signRequest req _ _ _ h =>
      have hown : concerns (processing req.requestId .sign).requestId
          (.request (.sign req) : Mail C) = true := by
        simp [concerns, processing, Request.requestId]
      cases h with
      | refused _ => exact .silently rfl fun x => rfl
      | mismatched _ _ _ => exact .silently rfl fun x => rfl
      | failed _ _ _ _ => exact .onwards rfl rfl hown fun x => Nat.zero_le _
      | began _ _ _ _ =>
          refine .onwards rfl rfl hown fun x => ?_
          simp only [Tally.total_cons, Tally.total_nil, dueOf, Nat.zero_add, Nat.add_zero]
          exact dueO_le x _
  | outgoing hes =>
      refine .silently (reports_of_sends hes) fun x => Tally.total_eq_zero fun e he => ?_
      obtain ⟨m, rfl⟩ := hes e he
      rfl
  | outputKG h =>
      cases h with
      | panicked _ => exact .silently rfl fun x => rfl
      | done _ => exact .lastly rfl rfl (decide_eq_true rfl) fun x => rfl
  | @outputO a out _ _ _ h =>
      have hown : concerns (processing out.input.inner.requestId .sign).requestId
          (.outputO a out) = true := by
        simp [concerns, processing]
      cases h with
      | signing _ =>
          refine .onwards rfl rfl hown fun x => ?_
          simp only [Tally.total_cons, Tally.total_nil, dueOf, Nat.add_zero]
          exact dueS_le x _
      | badHash _ => exact .lastly rfl rfl (decide_eq_true rfl) fun x => rfl
  | outputS => exact .lastly rfl rfl (decide_eq_true rfl) fun x => rfl

/-! ## Calls of the runners -/

theorem callKG_due (hyield : YieldOnce C) (a : Addr) (p : PlayerKG C) (now : Nat)
    (msg : Option (IncomingKG C)) (x : String) :
    ((callKG p now msg).2.2.filterMap (mailKG a)).countP (concerns x) +
      dueKG x (callKG p now msg).2.1 ≤ dueKG x p := by
  obtain ⟨hsame, hsends⟩ := callKG_keeps p now msg
  simp only [dueKG, hsame.1]
  refine Tally.countP_filterMap_add_le (fun s hs m hm hc => ?_) (callKG_yields hyield p now msg)
  have hown := hsends s hs
  cases s <;> cases hm <;> simp only [concerns, decide_eq_true_eq, Bool.false_eq_true] at hc
  exact ⟨rfl, by rw [← hown]; exact hc⟩

theorem callO_due (hyield : YieldOnce C) (a : Addr) (p : PlayerO C) (now : Nat)
    (msg : Option (IncomingO C)) (x : String) :
    ((callO p now msg).2.2.filterMap (mailO a)).countP (concerns x) +
      dueO x (callO p now msg).2.1 ≤ dueO x p := by
  obtain ⟨hsame, hsends⟩ := callO_keeps p now msg
  simp only [dueO, hsame.1]
  refine Tally.countP_filterMap_add_le (fun s hs m hm hc => ?_) (callO_yields hyield p now msg)
  have hown := hsends s hs
  cases s <;> cases hm <;> simp only [concerns, decide_eq_true_eq, Bool.false_eq_true] at hc
  exact ⟨rfl, by rw [← hown]; exact hc⟩

theorem callS_due (a : Addr) (s : Signer C) (msg : Option (IncomingS C)) (x : String) :
    ((callS s msg).2.2.filterMap (mailS a)).countP (concerns x) +
      dueS x (callS s msg).2.1 ≤ dueS x s := by
  obtain ⟨hsame, hsends⟩ := callS_keeps s msg
  simp only [dueS, hsame.1]
  refine Tally.countP_filterMap_add_le (fun o ho m hm hc => ?_) (callS_yields s msg)
  have hown := hsends o ho
  cases o <;> cases hm <;> simp only [concerns, decide_eq_true_eq, Bool.false_eq_true] at hc
  exact ⟨rfl, by rw [← hown]; exact hc⟩

/-! ## Steps -/

/-- What a step makes of what is due, and the status that goes with it. -/
inductive Accounts (n t : Node C) (rs : List CheckResultResponse) : Prop
  | silently : rs = [] → (∀ x, t.due x ≤ n.due x) → Accounts n t rs
  | onwards {r} : rs = [r] → r.requestStatus = .processing → 0 < n.due r.requestId →
      (∀ x, t.due x ≤ n.due x) → Accounts n t rs
  | lastly {r} : rs = [r] → r.requestStatus.isFinal = true →
      (∀ x, t.due x + (if r.requestId = x then 1 else 0) ≤ n.due x) → Accounts n t rs

/-- The mail at the head of the mailbox is taken up. -/
theorem Accounts.of_spends {n t : Node C} {m : Mail C} {rest : List (Mail C)}
    {es : List (Effect C)} (hbox : n.mailbox = m :: rest) (h : Spends m es)
    (ht : ∀ x, t.due x = ({ n with mailbox := rest } : Node C).due x +
      Tally.total (dueOf x) es) : Accounts n t (reports es) := by
  have htaken : ∀ x, ({ n with mailbox := rest } : Node C).due x + (concerns x m).toNat =
      n.due x := by
    intro x
    simp only [due, hbox, List.countP_cons]
    cases concerns x m
    · simp
    · simp only [if_true, Bool.toNat_true]
      omega
  cases h with
  | silently hr hes =>
      refine .silently hr fun x => ?_
      have := htaken x
      rw [ht x, hes x]
      omega
  | @onwards r hr hstatus hm hes =>
      refine .onwards hr hstatus ?_ fun x => ?_
      · have := htaken r.requestId
        rw [hm, Bool.toNat_true] at this
        omega
      · have hx := htaken x
        have hle := hes x
        rw [ht x]
        by_cases hown : r.requestId = x
        · rw [← hown, hm, Bool.toNat_true] at hx
          rw [if_pos hown] at hle
          rw [← hown] at hle ⊢
          omega
        · rw [if_neg hown] at hle
          omega
  | @lastly r hr hstatus hm hes =>
      refine .lastly hr hstatus fun x => ?_
      have hx := htaken x
      rw [ht x, hes x]
      by_cases hown : r.requestId = x
      · rw [← hown, hm, Bool.toNat_true] at hx
        rw [if_pos hown, ← hown]
        omega
      · rw [if_neg hown]
        omega

theorem filterMap_reportOf_of_idle {o : List (Obs C)} (h : ∀ y ∈ o, Idle y) :
    o.filterMap System.reportOf = [] :=
  List.filterMap_eq_nil_iff.mpr fun y hy => reportOf_of_idle (h y hy)

theorem due_settle (n : Node C) (f : Fate) (x : String) : (n.settle f).due x = n.due x := by
  have hzero : Tally.total (dueOf x) (n.coordinator.effects f) = 0 :=
    Tally.total_eq_zero fun e he => dueOf_of_idle (idle_effects n.coordinator f e he)
  rw [settle, due_applyEffects, hzero]
  rfl

/-- **Every status is paid for.** -/
theorem Steps.accounts (hyield : YieldOnce C) {n t : Node C} {e : Event} {o : List (Obs C)}
    (h : Steps n e t o) (he : ∀ req, e ≠ .request req) :
    Accounts n t (o.filterMap System.reportOf) := by
  -- a step that sends no status only has to make nothing more due
  have hidle {o : List (Obs C)} {t : Node C} (ho : ∀ y ∈ o, Idle y)
      (ht : ∀ x, t.due x ≤ n.due x) : Accounts n t (o.filterMap System.reportOf) :=
    .silently (filterMap_reportOf_of_idle ho) ht
  have hfate (c : Coordinator C) (f : Fate) : ∀ y ∈ (c.effects f).map Obs.effect, Idle y := by
    intro y hy
    obtain ⟨e, he, rfl⟩ := List.mem_map.mp hy
    exact idle_effects c f e he
  have hfailure {I β ε ο : Type} {y : Obs C} (hy : Idle y) (sends : List (PlayerSend I β ε ο)) :
      ∀ z ∈ sends.filterMap (failureOf y), Idle z := by
    intro z hz
    obtain rfl := eq_of_mem_failures hz
    exact hy
  cases h with
  | skipped _ => exact hidle (by simp) fun x => Nat.le_refl _
  | lost _ => exact hidle (by simp) fun x => Nat.le_refl _
  | finished _ => exact hidle (by simp [Idle]) fun x => Nat.le_refl _
  | attempted _ _ _ => exact hidle (by simp [Idle]) fun x => Nat.le_refl _
  | queued _ => exact absurd rfl (he _)
  | @received _ amb w _ _ =>
      obtain ⟨f, -, heq⟩ := receive_fate n w amb
      rw [heq]
      refine hidle (List.forall_mem_cons.mpr ⟨trivial, hfate _ f⟩) fun x => ?_
      exact Nat.le_of_eq (due_settle { n with nextOrigin := n.nextOrigin + 1 } f x)
  | @tookMail amb m rest _ hbox =>
      cases hm : reported m with
      | some r =>
          obtain ⟨error, a⟩ := r
          rw [takeMail_reported n hm]
          refine hidle (List.forall_mem_cons.mpr ⟨by simp [Idle, hm], hfate _ _⟩) fun x => ?_
          dsimp only
          rw [due_settle]
          simp only [due, hbox, List.countP_cons]
          omega
      | none =>
          obtain ⟨r, c, es, hh, heq⟩ := takeMail_handled n hm rest amb
          rw [heq]
          exact Accounts.of_spends hbox hh.spends fun x => due_applyEffects _ x es
  | @fired i m hget => exact hidle (by simp) fun x => Nat.le_refl _
  | @tookRetry amb m rest _ hbox =>
      obtain ⟨f, -, heq⟩ := takeRetry_fate n m rest amb
      rw [heq]
      exact hidle (hfate _ f) fun x => Nat.le_of_eq (due_settle { n with notified := rest } f x)
  | @ranKG _ a now x rest msg hget _ hbox _ =>
      refine hidle (hfailure (y := .failedKG a) trivial _) fun y => ?_
      have hstate : (n.playersKG.map (·.state))[a]? = some x.state := by simp [hget]
      -- the outputs it mails are taken from those it could still yield
      have hset := Tally.total_set (dueKG y) hstate (callKG x.state now msg).2.1
      have hdue := callKG_due hyield a x.state now msg y
      simp only [due, afterKG, List.map_set, Actor.after, List.countP_append]
      omega
  | @ranO _ a now x rest msg hget _ hbox _ =>
      refine hidle (hfailure (y := .failedO a) trivial _) fun y => ?_
      have hstate : (n.playersO.map (·.state))[a]? = some x.state := by simp [hget]
      have hset := Tally.total_set (dueO y) hstate (callO x.state now msg).2.1
      have hdue := callO_due hyield a x.state now msg y
      simp only [due, afterO, List.map_set, Actor.after, List.countP_append]
      omega
  | @ranS _ a x rest msg hget _ _ hbox _ =>
      refine hidle (fun z hz => ?_) fun y => ?_
      · obtain rfl := eq_of_mem_failuresS hz
        trivial
      · have hstate : (n.signers.map (·.state))[a]? = some x.state := by simp [hget]
        have hset := Tally.total_set (dueS y) hstate (callS x.state msg).2.1
        have hdue := callS_due a x.state msg y
        simp only [due, afterS, List.map_set, Actor.after, List.countP_append]
        omega

/-- A request makes one thing due. -/
theorem Steps.due_request {n t : Node C} {req : Request} {o : List (Obs C)}
    (h : Steps n (.request req) t o) (x : String) :
    o = [] ∧ t.due x ≤ n.due x + if req.requestId = x then 1 else 0 := by
  obtain ⟨ho, ⟨-, rfl⟩ | ⟨-, rfl⟩⟩ := h.request
  · exact ⟨ho, Nat.le_add_right _ _⟩
  · refine ⟨ho, ?_⟩
    simp only [due, List.countP_append, List.countP_singleton, concerns, decide_eq_true_eq]
    omega

end Node

end MpcServer

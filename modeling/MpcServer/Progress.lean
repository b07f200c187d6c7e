import MpcServer.Admission
import MpcServer.Statuses

/-!
# What becomes of a request

The statuses of an id that is admitted once come in one order: received,
processing any number of times, and one final status. A status is sent where
the request is handed on, through one queue, and its writer keeps the order.
-/

namespace MpcServer

open Machine

variable {C : Crates}

/-! ## The order of the statuses -/

/-- Received, then any number of processing, then one final status at most. -/
inductive Progress : List RequestStatus → Prop
  | nothing : Progress []
  | underway (k : Nat) : Progress (.received :: List.replicate k .processing)
  | ended (k : Nat) {last} : last.isFinal = true →
      Progress (.received :: (List.replicate k .processing ++ [last]))

namespace Progress

variable {l l' : List RequestStatus}

theorem of_prefix (h : Progress l') (hp : l <+: l') : Progress l := by
  have hreplicate (k : Nat) (l : List RequestStatus)
      (hl : l <+: .received :: List.replicate k .processing) : Progress l := by
    rcases List.prefix_cons_iff.mp hl with rfl | ⟨l₂, rfl, hl₂⟩
    · exact .nothing
    · rw [(List.prefix_replicate_iff.mp hl₂).2]
      exact .underway _
  cases h with
  | nothing =>
      rw [List.prefix_nil.mp hp]
      exact .nothing
  | underway k => exact hreplicate k l hp
  | ended k hlast =>
      rcases List.prefix_concat_iff.mp (List.cons_append ▸ hp) with rfl | hp
      · exact .ended k hlast
      · exact hreplicate k l hp

/-- A request that is under way goes on. -/
theorem append_processing (h : Progress l) (hne : l ≠ []) (hopen : l.countP (·.isFinal) = 0) :
    Progress (l ++ [.processing]) := by
  cases h with
  | nothing => exact absurd rfl hne
  | underway k =>
      rw [List.cons_append, ← List.replicate_succ']
      exact .underway (k + 1)
  | ended k hended => exact absurd hended (List.countP_eq_zero.mp hopen _ (by simp))

theorem append_final (h : Progress l) (hne : l ≠ []) (hopen : l.countP (·.isFinal) = 0)
    {last : RequestStatus} (hlast : last.isFinal = true) : Progress (l ++ [last]) := by
  cases h with
  | nothing => exact absurd rfl hne
  | underway k => exact .ended k hlast
  | ended k hended => exact absurd hended (List.countP_eq_zero.mp hopen _ (by simp))

/-- A part that has the first status keeps the order. -/
theorem of_sublist (h : Progress l') (hl : l.Sublist l')
    (hfirst : .received ∈ l' → .received ∈ l) : Progress l := by
  -- the first status comes nowhere else
  have hone (rest : List RequestStatus) (hrest : .received ∉ rest)
      (hl : l.Sublist (.received :: rest)) (hmem : .received ∈ l) :
      ∃ l₂, l = .received :: l₂ ∧ l₂.Sublist rest := by
    rcases List.sublist_cons_iff.mp hl with hl | ⟨l₂, rfl, hl₂⟩
    · exact absurd (hl.subset hmem) hrest
    · exact ⟨l₂, rfl, hl₂⟩
  have hreplicate (k : Nat) : RequestStatus.received ∉ List.replicate k .processing :=
    fun hmem => by cases List.eq_of_mem_replicate hmem
  cases h with
  | nothing =>
      rw [List.sublist_nil.mp hl]
      exact .nothing
  | underway k =>
      obtain ⟨l₂, rfl, hl₂⟩ := hone _ (hreplicate k) hl (hfirst List.mem_cons_self)
      obtain ⟨j, -, rfl⟩ := List.sublist_replicate_iff.mp hl₂
      exact .underway j
  | @ended k last hlast =>
      have hrest : RequestStatus.received ∉ List.replicate k .processing ++ [last] := by
        intro hmem
        rcases List.mem_append.mp hmem with hmem | hmem
        · exact hreplicate k hmem
        · cases List.mem_singleton.mp hmem
          cases hlast
      obtain ⟨l₂, rfl, hl₂⟩ := hone _ hrest hl (hfirst List.mem_cons_self)
      obtain ⟨l₃, l₄, rfl, hl₃, hl₄⟩ := List.sublist_append_iff.mp hl₂
      obtain ⟨j, -, rfl⟩ := List.sublist_replicate_iff.mp hl₃
      rcases List.sublist_singleton.mp hl₄ with rfl | rfl
      · rw [List.append_nil]
        exact .underway j
      · exact .ended j hlast

/-- Nothing follows a final status. -/
theorem not_final_of_append {r : RequestStatus} (h : Progress (l ++ [r])) :
    ∀ r' ∈ l, r'.isFinal = false := by
  have hreplicate (k : Nat) : ∀ r' ∈ .received :: List.replicate k RequestStatus.processing,
      r'.isFinal = false := by
    intro r' hr'
    rcases List.mem_cons.mp hr' with rfl | hr'
    · rfl
    · rw [List.eq_of_mem_replicate hr']
      rfl
  generalize hl : l ++ [r] = l' at h
  intro r' hr'
  cases h with
  | nothing => simp at hl
  | underway k => exact hreplicate k r' (hl ▸ List.mem_append_left _ hr')
  | ended k _ =>
      rw [← List.cons_append] at hl
      obtain ⟨rfl, -⟩ := List.append_inj' hl rfl
      exact hreplicate k r' hr'

end Progress

/-! ## The calls and the queue -/

namespace Server

/-- What is due for an id: calls that have not returned and requests that wait. -/
def due (s : Server C) (x : String) : Nat :=
  s.calls.countP (fun c => decide (c.request.requestId = x)) +
    s.rx.countP fun req => decide (req.requestId = x)

/-- The calls with an id that have not sent its first status. -/
def unannounced (s : Server C) (x : String) : Nat :=
  s.calls.countP fun c => decide (c.request.requestId = x) && !c.announced

/-- The status that a step sends. -/
def sentStatus : Obs → Option CheckResultResponse
  | .sent r => some r
  | _ => none

/-- What a step makes of what is due. -/
inductive Accounts (s t : Server C) (o : List Obs) : Prop
  | still : o.filterMap sentStatus = [] → o.filterMap admittedId = [] →
      (∀ x, t.due x ≤ s.due x) → (∀ x, t.unannounced x = s.unannounced x) → Accounts s t o
  | admitted {req : Request} : o.filterMap sentStatus = [] → o.filterMap admittedId = [req.requestId] →
      (∀ x, t.due x = s.due x + if req.requestId = x then 1 else 0) →
      (∀ x, t.unannounced x = s.unannounced x + if req.requestId = x then 1 else 0) →
      Accounts s t o
  | announced {req : Request} : o.filterMap sentStatus = [received req] → o.filterMap admittedId = [] →
      (∀ x, t.due x = s.due x) →
      (∀ x, t.unannounced x + (if req.requestId = x then 1 else 0) = s.unannounced x) →
      Accounts s t o

theorem Steps.accounts {s t : Server C} {e : Event} {o : List Obs} (h : Steps s e t o) :
    Accounts s t o := by
  cases h with
  | refused _ => exact .still rfl rfl (fun x => Nat.le_refl _) fun x => rfl
  | @admitted req _ _ =>
      refine .admitted rfl rfl (fun x => ?_) fun x => ?_
      · simp only [due, List.countP_append, List.countP_singleton, decide_eq_true_eq]
        omega
      · simp [unannounced, List.countP_append, List.countP_singleton]
  | @announced i req hget =>
      refine .announced rfl rfl (fun x => ?_) fun x => ?_
      · have := Tally.countP_set (fun c : PendingCall => decide (c.request.requestId = x)) hget
          ⟨req, true⟩
        simp only [due] at this ⊢
        omega
      · have := Tally.countP_set (fun c : PendingCall => decide (c.request.requestId = x) && !c.announced)
          hget ⟨req, true⟩
        simp only [unannounced]
        by_cases hx : req.requestId = x <;> simp [hx] at this ⊢ <;> omega
  | @queued i req hget _ =>
      refine .still rfl rfl (fun x => ?_) fun x => ?_
      · have := Tally.countP_eraseIdx (fun c : PendingCall => decide (c.request.requestId = x)) hget
        simp only [due, List.countP_append, List.countP_singleton]
        by_cases hx : req.requestId = x <;> simp [hx] at this ⊢ <;> omega
      · have := Tally.countP_eraseIdx
          (fun c : PendingCall => decide (c.request.requestId = x) && !c.announced) hget
        simpa [unannounced] using this
  | @lost i req hget _ =>
      refine .still rfl rfl (fun x => ?_) fun x => ?_
      · have := Tally.countP_eraseIdx (fun c : PendingCall => decide (c.request.requestId = x)) hget
        simp only [due]
        omega
      · have := Tally.countP_eraseIdx
          (fun c : PendingCall => decide (c.request.requestId = x) && !c.announced) hget
        simpa [unannounced] using this
  | checked => exact .still rfl rfl (fun x => Nat.le_refl _) fun x => rfl
  | saved _ => exact .still rfl rfl (fun x => Nat.le_refl _) fun x => rfl
  | joined _ => exact .still rfl rfl (fun x => Nat.le_refl _) fun x => rfl
  | left _ => exact .still rfl rfl (fun x => Nat.le_add_right _ _) fun x => rfl

theorem unannounced_le (s : Server C) (x : String) : s.unannounced x ≤ s.due x := by
  refine Nat.le_trans (List.countP_mono_left fun c _ hc => ?_) (Nat.le_add_right _ _)
  exact (Bool.and_eq_true_iff.mp hc).1

end Server

namespace System

/-! ## What is sent for an id -/

/-- The status that a step sends. -/
def sentStatus : Obs C → Option CheckResultResponse
  | .server o => Server.sentStatus o
  | .node o => reportOf o

/-- The statuses that went into the queue of the writer, in their order. -/
def sent (os : List (Obs C)) : List CheckResultResponse := os.filterMap sentStatus

/-- The statuses of an id. -/
def statusesOf (x : String) (rs : List CheckResultResponse) : List RequestStatus :=
  (rs.filter (·.requestId = x)).map (·.requestStatus)

/-- How often `keygen` or `sign` admitted a request with the id. -/
def admissions (x : String) (os : List (Obs C)) : Nat :=
  ((os.filterMap serverObs).filterMap Server.admittedId).count x

/-- What is due for an id, at the server and in its node. -/
noncomputable def due (s : System C) (x : String) : Nat := s.server.due x + s.node.due x

theorem statusesOf_append (x : String) (rs rs' : List CheckResultResponse) :
    statusesOf x (rs ++ rs') = statusesOf x rs ++ statusesOf x rs' := by
  simp [statusesOf]

theorem statusesOf_singleton (x : String) (r : CheckResultResponse) :
    statusesOf x [r] = if r.requestId = x then [r.requestStatus] else [] := by
  by_cases hx : r.requestId = x <;> simp [statusesOf, hx]

theorem sent_append (os o : List (Obs C)) : sent (os ++ o) = sent os ++ sent o :=
  List.filterMap_append

theorem admissions_append (x : String) (os o : List (Obs C)) :
    admissions x (os ++ o) = admissions x os + admissions x o := by
  simp [admissions]

theorem sent_server (o : List Server.Obs) :
    sent (o.map (Obs.server (C := C))) = o.filterMap Server.sentStatus := by
  simp only [sent, List.filterMap_map]
  rfl

theorem sent_node (o : List (MpcServer.Obs C)) : sent (o.map Obs.node) = o.filterMap reportOf := by
  simp only [sent, List.filterMap_map]
  rfl

theorem admissions_server (x : String) (o : List Server.Obs) :
    admissions x (o.map (Obs.server (C := C))) = (o.filterMap Server.admittedId).count x := by
  rw [admissions, filterMap_serverObs_server]

theorem admissions_node (x : String) (o : List (MpcServer.Obs C)) :
    admissions x (o.map Obs.node) = 0 := by
  rw [admissions, filterMap_serverObs_node]
  rfl

/-! ## The order is kept -/

/-- An id that was admitted once: its statuses are in order, and what is due for
it and its final status come out of the one admission. -/
structure Orderly (x : String) (os : List (Obs C)) (s : System C) : Prop where
  progress : Progress (statusesOf x (sent os))
  paid : s.due x + (statusesOf x (sent os)).countP (·.isFinal) ≤ admissions x os
  came : admissions x os = 0 → statusesOf x (sent os) = []
  first : statusesOf x (sent os) = [] → s.due x ≤ s.server.unannounced x
  announced : statusesOf x (sent os) ≠ [] → s.server.unannounced x = 0

theorem Orderly.init (x : String) (sk : C.SecretKey) (shares results : Tree C) :
    Orderly x [] (init sk shares results) where
  progress := .nothing
  paid := Nat.le_refl _
  came _ := rfl
  first _ := Nat.le_refl _
  announced h := absurd rfl h

section
variable {x : String} {os o : List (Obs C)} {s t : System C}

/-- No status of the id is sent. -/
theorem Orderly.still (h : Orderly x os s) (hsent : statusesOf x (sent o) = [])
    (hadmitted : admissions x o = 0) (hdue : t.due x ≤ s.due x)
    (hunannounced : t.server.unannounced x = s.server.unannounced x) :
    Orderly x (os ++ o) t := by
  have hstatuses : statusesOf x (sent (os ++ o)) = statusesOf x (sent os) := by
    rw [sent_append, statusesOf_append, hsent, List.append_nil]
  have hcount : admissions x (os ++ o) = admissions x os := by
    rw [admissions_append, hadmitted, Nat.add_zero]
  refine ⟨hstatuses ▸ h.progress, ?_, ?_, ?_, ?_⟩
  · rw [hstatuses, hcount]
    exact Nat.le_trans (Nat.add_le_add_right hdue _) h.paid
  · rw [hstatuses, hcount]
    exact h.came
  · rw [hstatuses, hunannounced]
    exact fun hnone => Nat.le_trans hdue (h.first hnone)
  · rw [hstatuses, hunannounced]
    exact h.announced

/-- A request with the id is admitted, and it was not before. -/
theorem Orderly.admit (h : Orderly x os s) (hfresh : admissions x os = 0) (hsent : sent o = [])
    (hadmitted : admissions x o = 1) (hdue : t.due x = s.due x + 1)
    (hunannounced : t.server.unannounced x = s.server.unannounced x + 1) :
    Orderly x (os ++ o) t := by
  have hnone : statusesOf x (sent os) = [] := h.came hfresh
  have hstatuses : statusesOf x (sent (os ++ o)) = [] := by
    rw [sent_append, hsent, List.append_nil, hnone]
  have hpaid := h.paid
  have hfirst := h.first hnone
  refine ⟨hstatuses ▸ .nothing, ?_, fun _ => hstatuses, fun _ => by omega, fun hne => ?_⟩
  · rw [hstatuses, admissions_append, List.countP_nil]
    omega
  · exact absurd hstatuses hne

/-- The first status is sent. -/
theorem Orderly.announce (h : Orderly x os s) (honce : admissions x os ≤ 1)
    (hsent : statusesOf x (sent o) = [.received]) (hadmitted : admissions x o = 0)
    (hdue : t.due x = s.due x)
    (hunannounced : t.server.unannounced x + 1 = s.server.unannounced x)
    (hle : s.server.unannounced x ≤ s.due x) : Orderly x (os ++ o) t := by
  have hnone : statusesOf x (sent os) = [] := by
    by_contra hne
    have := h.announced hne
    omega
  have hstatuses : statusesOf x (sent (os ++ o)) = [.received] := by
    rw [sent_append, statusesOf_append, hnone, hsent, List.nil_append]
  have hpaid := h.paid
  have hzero : [RequestStatus.received].countP (·.isFinal) = 0 := rfl
  refine ⟨hstatuses ▸ .underway 0, ?_, fun hnever => ?_, fun hempty => ?_, fun _ => by omega⟩
  · rw [hstatuses, hzero, admissions_append]
    omega
  · rw [admissions_append] at hnever
    omega
  · rw [hstatuses] at hempty
    cases hempty

/-- A later status is sent, by what is due: a final one uses it up. -/
theorem Orderly.hand (h : Orderly x os s) (honce : admissions x os ≤ 1) {r : RequestStatus}
    (hsent : statusesOf x (sent o) = [r]) (hadmitted : admissions x o = 0)
    (hstatus : r = .processing ∨ r.isFinal = true) (hpos : 0 < s.node.due x)
    (hdue : t.due x + r.isFinal.toNat ≤ s.due x)
    (hunannounced : t.server.unannounced x = s.server.unannounced x)
    (hle : s.server.unannounced x ≤ s.server.due x) : Orderly x (os ++ o) t := by
  have hpaid := h.paid
  have hsum : s.due x = s.server.due x + s.node.due x := rfl
  have hne : statusesOf x (sent os) ≠ [] := by
    intro hnone
    have := h.first hnone
    omega
  have hopen : (statusesOf x (sent os)).countP (·.isFinal) = 0 := by omega
  have hstatuses : statusesOf x (sent (os ++ o)) = statusesOf x (sent os) ++ [r] := by
    rw [sent_append, statusesOf_append, hsent]
  refine ⟨?_, ?_, fun hnever => ?_, fun hempty => ?_, fun _ => ?_⟩
  · rw [hstatuses]
    rcases hstatus with rfl | hfinal
    · exact h.progress.append_processing hne hopen
    · exact h.progress.append_final hne hopen hfinal
  · rw [hstatuses, List.countP_append, hopen, List.countP_singleton, admissions_append]
    cases hfinal : r.isFinal <;> simp [hfinal] at hdue ⊢ <;> omega
  · rw [admissions_append] at hnever
    omega
  · rw [hstatuses] at hempty
    simp at hempty
  · rw [hunannounced]
    exact h.announced hne

theorem Orderly.server (h : Orderly x os s) {u : Server C} {o : List Server.Obs}
    (honce : admissions x (os ++ o.map Obs.server) ≤ 1) (hs : Server.Accounts s.server u o) :
    Orderly x (os ++ o.map Obs.server) { s with server := u } := by
  rw [admissions_append, admissions_server] at honce
  have hle := s.server.unannounced_le x
  cases hs with
  | still hsent hadmitted hdue hunannounced =>
      refine h.still ?_ ?_ (Nat.add_le_add_right (hdue x) _) (hunannounced x)
      · rw [sent_server, hsent]
        rfl
      · rw [admissions_server, hadmitted]
        rfl
  | @admitted req hsent hadmitted hdue hunannounced =>
      have hdue' := hdue x
      have hun := hunannounced x
      rw [hadmitted] at honce
      -- the one admission there may be, or one of another id
      by_cases hx : req.requestId = x
      · rw [if_pos hx] at hdue' hun
        simp only [hx, List.count_cons_self, List.count_nil] at honce
        refine h.admit (by omega) ?_ ?_ ?_ hun
        · rw [sent_server, hsent]
        · rw [admissions_server, hadmitted, hx]
          exact List.count_singleton_self
        · simp only [due]
          omega
      · rw [if_neg hx] at hdue' hun
        refine h.still ?_ ?_ ?_ hun
        · rw [sent_server, hsent]
          rfl
        · rw [admissions_server, hadmitted]
          exact List.count_singleton.trans (if_neg (by simpa using hx))
        · simp only [due]
          omega
  | @announced req hsent hadmitted hdue hunannounced =>
      have hun := hunannounced x
      rw [hadmitted] at honce
      have hnone : admissions x (o.map (Obs.server (C := C))) = 0 := by
        rw [admissions_server, hadmitted]
        rfl
      have hdue' : due { s with server := u } x = s.due x := congrArg (· + s.node.due x) (hdue x)
      have hstatuses : statusesOf x (sent (o.map (Obs.server (C := C)))) =
          if req.requestId = x then [.received] else [] := by
        rw [sent_server, hsent, statusesOf_singleton, received_requestId]
        cases req <;> rfl
      -- the first status of the id, unless it is of another one
      by_cases hx : req.requestId = x
      · rw [if_pos hx] at hun hstatuses
        exact h.announce (by omega) hstatuses hnone hdue' hun
          (Nat.le_trans hle (Nat.le_add_right _ _))
      · rw [if_neg hx] at hun hstatuses
        exact h.still hstatuses hnone hdue'.le hun

theorem Orderly.node (h : Orderly x os s) {n : Node C} {o : List (MpcServer.Obs C)}
    (honce : admissions x (os ++ o.map Obs.node) ≤ 1)
    (hs : Node.Accounts s.node n (o.filterMap reportOf)) :
    Orderly x (os ++ o.map Obs.node)
      { server := report s.server (o.filterMap reportOf), node := n } := by
  have hnone := admissions_node x o
  rw [admissions_append, hnone, Nat.add_zero] at honce
  have hle := s.server.unannounced_le x
  have hserver : (report s.server (o.filterMap reportOf)).due x = s.server.due x := rfl
  cases hs with
  | silently hrs hdue =>
      refine h.still ?_ hnone (Nat.add_le_add_left (hdue x) _) rfl
      rw [sent_node, hrs]
      rfl
  | @onwards r hrs hstatus hpos hdue =>
      have hstatuses : statusesOf x (sent (o.map Obs.node)) =
          if r.requestId = x then [r.requestStatus] else [] := by
        rw [sent_node, hrs, statusesOf_singleton]
      by_cases hx : r.requestId = x
      · rw [if_pos hx] at hstatuses
        -- something is due for the id, so its final status is still to come
        refine h.hand honce hstatuses hnone (.inl hstatus) (hx ▸ hpos) ?_ rfl hle
        rw [hstatus]
        exact Nat.add_le_add_left (hdue x) _
      · rw [if_neg hx] at hstatuses
        exact h.still hstatuses hnone (Nat.add_le_add_left (hdue x) _) rfl
  | @lastly r hrs hfinal hdue =>
      have hstatuses : statusesOf x (sent (o.map Obs.node)) =
          if r.requestId = x then [r.requestStatus] else [] := by
        rw [sent_node, hrs, statusesOf_singleton]
      have hx' := hdue x
      by_cases hx : r.requestId = x
      · rw [if_pos hx] at hstatuses hx'
        refine h.hand honce hstatuses hnone (.inr hfinal) (by omega) ?_ rfl hle
        rw [hfinal, Bool.toNat_true]
        simp only [due]
        omega
      · rw [if_neg hx] at hstatuses hx'
        exact h.still hstatuses hnone (Nat.add_le_add_left hx' _) rfl

/-- A request goes from the queue to the mailbox. -/
theorem Orderly.forward (h : Orderly x os s) {req : Request} {rest : List Request} {n : Node C}
    {o : List (MpcServer.Obs C)} (hrx : s.server.rx = req :: rest)
    (hs : Node.Steps s.node (.request req) n o) :
    Orderly x (os ++ o.map Obs.node) { server := { s.server with rx := rest }, node := n } := by
  obtain ⟨rfl, hdue⟩ := hs.due_request x
  refine h.still rfl rfl ?_ rfl
  simp only [due, Server.due, hrx, List.countP_cons, decide_eq_true_eq]
  omega

theorem Orderly.step (hyield : Node.YieldOnce C) (h : Orderly x os s)
    (honce : admissions x (os ++ o) ≤ 1) {e : Event} (hs : Steps s e t o) :
    Orderly x (os ++ o) t := by
  cases hs with
  | server hs => exact h.server honce hs.accounts
  | forward _ hrx hn => exact h.forward hrx hn
  | node _ hreq hn =>
      refine h.node honce (hn.accounts hyield fun req he => ?_)
      rw [he] at hreq
      cases hreq

/-- The statuses of an id that was admitted once are sent in order. -/
theorem orderly_of_run (hyield : Node.YieldOnce C) {sk : C.SecretKey} {shares results : Tree C}
    (hrun : Run step anyStep (init sk shares results) os s) (honce : admissions x os ≤ 1) :
    Orderly x os s := by
  refine hrun.invariant (fun os s => admissions x os ≤ 1 → Orderly x os s)
    (fun _ => .init x sk shares results) (fun _ ih _ hs honce => ?_) honce
  have hold := honce
  rw [admissions_append] at hold
  exact (ih (by omega)).step hyield honce (step_cases hs)

end

/-! ## The writer -/

/-- A call of `save_result`: its status, and whether the database took it. -/
abbrev Save := CheckResultResponse × Bool

/-- The call of `save_result` in a step. -/
def saves (s : System C) : Event → List Save
  | .server (.handleResponse insertOk) =>
      match s.server.rxRes with
      | response :: _ =>
          [(response, (Server.saveResult s.server.resultsDb insertOk response).isSome)]
      | [] => []
  | _ => []

/-- The statuses of an id that were handed to `save_result`. -/
def handed (x : String) (ws : List Save) : List RequestStatus := statusesOf x (ws.map Prod.fst)

/-- The responses of an id that the database took. -/
def taken (x : String) (ws : List Save) : List CheckResultResponse :=
  ((ws.filter (·.2)).map Prod.fst).filter (·.requestId = x)

/-- The statuses of an id that were written to the database. -/
def written (x : String) (ws : List Save) : List RequestStatus :=
  (taken x ws).map (·.requestStatus)

/-- What clients that polled for an id were answered. -/
def polls (x : String) (os : List (Obs C)) : List CheckResultResponse :=
  os.filterMap fun
    | .server (.checked requestId (.ok r)) => if requestId = x then some r else none
    | _ => none

/-- There is a record of the id, and it reads as the response. -/
def Reads (s : System C) (x : String) (r : CheckResultResponse) : Prop :=
  ∃ b, s.server.resultsDb x = some b ∧ C.checkResultResponse.read b = some r

theorem Reads.unique {s : System C} {x : String} {r r' : CheckResultResponse} (h : s.Reads x r)
    (h' : s.Reads x r') : r' = r := by
  obtain ⟨b, hb, hr⟩ := h
  obtain ⟨b', hb', hr'⟩ := h'
  cases hb.symm.trans hb'
  exact Option.some.inj (hr'.symm.trans hr)

/-- What was sent was saved, or waits; and the database holds what was taken
last. -/
structure Written (results : Tree C) (os : List (Obs C)) (ws : List Save) (s : System C) :
    Prop where
  queue : sent os = ws.map Prod.fst ++ s.server.rxRes
  untouched : ∀ x, taken x ws = [] → s.server.resultsDb x = results x
  last : ∀ x l r, taken x ws = l ++ [r] → s.Reads x r

section
variable {results : Tree C} {os o : List (Obs C)} {ws : List Save} {s t : System C} {e : Event}

theorem taken_append_singleton (x : String) (ws : List Save) (w : Save) :
    taken x (ws ++ [w]) = taken x ws ++ if w.2 = true ∧ w.1.requestId = x then [w.1] else [] := by
  by_cases hok : w.2 = true <;> by_cases hx : w.1.requestId = x <;> simp [taken, hok, hx]

/-- A step that is not the writer's only appends to its queue. -/
theorem saves_nil_or (hs : Steps s e t o) :
    (s.saves e = [] ∧ t.server.resultsDb = s.server.resultsDb ∧
      t.server.rxRes = s.server.rxRes ++ sent o) ∨
    ∃ insertOk response rest, e = .server (.handleResponse insertOk) ∧ o = [] ∧
      s.server.rxRes = response :: rest ∧
      s.saves e =
        [(response, (Server.saveResult s.server.resultsDb insertOk response).isSome)] ∧
      t.server.rxRes = rest ∧ t.server.resultsDb =
        (Server.saveResult s.server.resultsDb insertOk response).getD s.server.resultsDb := by
  have hquiet (h : sent o = []) (hrx : t.server.rxRes = s.server.rxRes) :
      t.server.rxRes = s.server.rxRes ++ sent o := by
    rw [h, hrx, List.append_nil]
  cases hs with
  | server hs =>
      cases hs with
      | @saved insertOk response rest hrx =>
          exact .inr ⟨insertOk, response, rest, rfl, rfl, hrx, by simp [saves, hrx], rfl, rfl⟩
      | announced _ => exact .inl ⟨rfl, rfl, rfl⟩
      | _ => exact .inl ⟨rfl, rfl, hquiet rfl rfl⟩
  | forward _ _ hn =>
      obtain ⟨rfl, -⟩ := hn.due_request ""
      exact .inl ⟨rfl, rfl, hquiet rfl rfl⟩
  | node _ _ _ => exact .inl ⟨rfl, rfl, by rw [sent_node]; rfl⟩

/-- Where the database takes a response there is a record of it. -/
theorem record_of_save (hjson : C.checkResultResponse.RoundTrips) (db : Tree C) (insertOk : Bool)
    (response : CheckResultResponse) :
    ∃ b, C.checkResultResponse.read b = some response ∧
      (Server.saveResult db insertOk response).isSome = insertOk ∧
      ∀ x, (Server.saveResult db insertOk response).getD db x =
        if insertOk = true ∧ response.requestId = x then some b else db x := by
  obtain ⟨b, hwrite, hread⟩ := hjson response
  refine ⟨b, hread, ?_⟩
  cases insertOk with
  | false => simp [Server.saveResult, hwrite]
  | true =>
      refine ⟨by simp [Server.saveResult, hwrite], fun x => ?_⟩
      by_cases hx : response.requestId = x
      · simp [Server.saveResult, hwrite, hx]
      · simp [Server.saveResult, hwrite, hx, Function.update_of_ne (Ne.symm hx)]

theorem Written.step (hjson : C.checkResultResponse.RoundTrips) (h : Written results os ws s)
    (hs : Steps s e t o) : Written results (os ++ o) (ws ++ s.saves e) t := by
  rcases saves_nil_or hs with ⟨hnone, hdb, hrx⟩ | ⟨insertOk, response, rest, rfl, rfl, hrx, hsaves,
    hrest, hdb⟩
  · rw [hnone, List.append_nil]
    refine ⟨?_, fun x hx => ?_, fun x l r hx => ?_⟩
    · rw [sent_append, h.queue, hrx, List.append_assoc]
    · rw [hdb]
      exact h.untouched x hx
    · obtain ⟨b, hb, hr⟩ := h.last x l r hx
      exact ⟨b, by rw [hdb, hb], hr⟩
  · -- the head of the queue is gone, whether or not the database took it
    obtain ⟨b, hread, hsome, hrecord⟩ :=
      record_of_save hjson s.server.resultsDb insertOk response
    have htaken (x : String) : taken x (ws ++ [(response, insertOk)]) =
        taken x ws ++ if insertOk = true ∧ response.requestId = x then [response] else [] :=
      taken_append_singleton x ws (response, insertOk)
    rw [hsaves, hsome, List.append_nil]
    refine ⟨?_, fun x hx => ?_, fun x l r hx => ?_⟩
    · rw [h.queue, hrx, hrest, List.map_append, List.append_assoc]
      rfl
    · rw [htaken] at hx
      obtain ⟨hold, hnot⟩ := List.append_eq_nil_iff.mp hx
      rw [hdb, hrecord, if_neg fun hnew => by simp [hnew] at hnot]
      exact h.untouched x hold
    · rw [htaken] at hx
      by_cases hnew : insertOk = true ∧ response.requestId = x
      · rw [if_pos hnew] at hx
        obtain ⟨-, heq⟩ := List.append_inj' hx rfl
        cases heq
        exact ⟨b, by rw [hdb, hrecord, if_pos hnew], hread⟩
      · rw [if_neg hnew, List.append_nil] at hx
        obtain ⟨b', hb', hread'⟩ := h.last x l r hx
        exact ⟨b', by rw [hdb, hrecord, if_neg hnew, hb'], hread'⟩

/-! ## What clients see -/

/-- A final answer stands: the record reads as it, and every later answer is
the same. -/
structure Settled (x : String) (os : List (Obs C)) (s : System C) : Prop where
  record : ∀ r ∈ polls x os, r.requestStatus.isFinal = true → s.Reads x r
  answers : (polls x os).Pairwise fun r r' => r.requestStatus.isFinal = true → r' = r

theorem polls_append (x : String) (os o : List (Obs C)) :
    polls x (os ++ o) = polls x os ++ polls x o := List.filterMap_append

/-- An answer is what the record reads as; no step answers and writes. -/
theorem polls_cases (x : String) (hs : Steps s e t o) : polls x o = [] ∨
    ∃ r, polls x o = [r] ∧ s.Reads x r ∧ t.server.resultsDb = s.server.resultsDb := by
  cases hs with
  | server hs =>
      cases hs with
      | @checked requestId getOk =>
          cases hanswer : s.server.checkResult getOk requestId with
          | error status => exact .inl rfl
          | ok r =>
              by_cases hx : requestId = x
              · subst hx
                refine .inr ⟨r, by simp [polls], ?_, rfl⟩
                simp only [Server.checkResult] at hanswer
                split at hanswer
                · split at hanswer
                  · cases hanswer
                  · rename_i b hb
                    split at hanswer
                    · rename_i r' hr'
                      cases hanswer
                      exact ⟨b, hb, hr'⟩
                    · cases hanswer
                · cases hanswer
              · exact .inl (by simp [polls, hx])
      | _ => exact .inl rfl
  | forward _ _ _ => exact .inl (by simp [polls])
  | node _ _ _ => exact .inl (by simp [polls])

theorem handed_append_of_queue {x : String} (h : Written results os ws s) :
    statusesOf x (sent os) = handed x ws ++ statusesOf x s.server.rxRes := by
  rw [h.queue, statusesOf_append, handed]

theorem mem_handed_of_taken {x : String} {r : CheckResultResponse} (hr : r ∈ taken x ws) :
    r.requestStatus ∈ handed x ws := by
  obtain ⟨hmem, hx⟩ := List.mem_filter.mp hr
  obtain ⟨w, hw, rfl⟩ := List.mem_map.mp hmem
  refine List.mem_map_of_mem (List.mem_filter.mpr ⟨?_, hx⟩)
  exact List.mem_map_of_mem (List.mem_of_mem_filter hw)

/-- A final record is not written over. -/
theorem Written.not_after_final {x : String} (h : Written results os ws s) (ho : Orderly x os s)
    (hfresh : results x = none ∨ admissions x os = 0) {response : CheckResultResponse}
    {rest : List CheckResultResponse} (hrx : s.server.rxRes = response :: rest)
    (hx : response.requestId = x) {r : CheckResultResponse} (hr : s.Reads x r) :
    r.requestStatus.isFinal = false := by
  have hstatuses : statusesOf x (sent os) =
      handed x ws ++ [response.requestStatus] ++ statusesOf x rest := by
    rw [handed_append_of_queue h, hrx, ← List.singleton_append, statusesOf_append,
      statusesOf_singleton, if_pos hx, List.append_assoc]
  have hadmitted : admissions x os ≠ 0 := by
    intro hzero
    have hnone := ho.came hzero
    rw [hstatuses] at hnone
    simp at hnone
  rcases List.eq_nil_or_concat (taken x ws) with hnil | ⟨l, last, hlast⟩
  · -- nothing was taken, so the record would be one from before
    obtain ⟨b, hb, -⟩ := hr
    rw [h.untouched x hnil, hfresh.resolve_right hadmitted] at hb
    cases hb
  · rw [List.concat_eq_append] at hlast
    have hmem : last ∈ taken x ws := by
      rw [hlast]
      exact List.mem_append_right _ List.mem_cons_self
    rw [Reads.unique (h.last x l last hlast) hr]
    have hprefix : Progress (handed x ws ++ [response.requestStatus]) :=
      ho.progress.of_prefix (hstatuses ▸ List.prefix_append _ _)
    exact hprefix.not_final_of_append _ (mem_handed_of_taken hmem)

theorem Settled.step {x : String} (hjson : C.checkResultResponse.RoundTrips)
    (hset : Settled x os s) (h : Written results os ws s) (ho : Orderly x os s)
    (hfresh : results x = none ∨ admissions x os = 0) (hs : Steps s e t o) :
    Settled x (os ++ o) t := by
  -- nothing is written over a final status
  have hkept (r : CheckResultResponse) (hr : s.Reads x r) (hfinal : r.requestStatus.isFinal = true) :
      t.Reads x r := by
    rcases saves_nil_or hs with ⟨-, hdb, -⟩ | ⟨insertOk, response, rest, -, -, hrx, -, -, hdb⟩
    · obtain ⟨b, hb, hread⟩ := hr
      exact ⟨b, by rw [hdb, hb], hread⟩
    · by_cases hx : response.requestId = x
      · have := h.not_after_final ho hfresh hrx hx hr
        rw [hfinal] at this
        cases this
      · obtain ⟨_, -, -, hrecord⟩ := record_of_save hjson s.server.resultsDb insertOk response
        obtain ⟨b, hb, hread⟩ := hr
        exact ⟨b, by rw [hdb, hrecord, if_neg fun hnew => hx hnew.2, hb], hread⟩
  -- only a poll of the id itself adds to its answers
  rcases polls_cases x hs with hnone | ⟨r, hone, hr, hdb⟩
  · have hpolls : polls x (os ++ o) = polls x os := by
      rw [polls_append, hnone, List.append_nil]
    exact ⟨fun r hr hfinal => hkept r (hset.record r (hpolls ▸ hr) hfinal) hfinal,
      hpolls ▸ hset.answers⟩
  · have hpolls : polls x (os ++ o) = polls x os ++ [r] := by rw [polls_append, hone]
    refine ⟨fun r' hr' hfinal => ?_, ?_⟩
    · rw [hpolls] at hr'
      rcases List.mem_append.mp hr' with hr' | hr'
      · exact hkept r' (hset.record r' hr' hfinal) hfinal
      · obtain rfl := List.mem_singleton.mp hr'
        exact hkept r' hr hfinal
    · rw [hpolls]
      refine List.pairwise_append.mpr ⟨hset.answers, List.pairwise_singleton _ _, ?_⟩
      intro r₁ hr₁ r₂ hr₂ hfinal
      obtain rfl := List.mem_singleton.mp hr₂
      exact (hset.record r₁ hr₁ hfinal).unique hr

end

theorem Written.init (sk : C.SecretKey) (shares results : Tree C) :
    Written results [] [] (init sk shares results) where
  queue := rfl
  untouched _ _ := rfl
  last _ _ _ h := by simp [taken] at h

theorem Settled.init (x : String) (sk : C.SecretKey) (shares results : Tree C) :
    Settled x [] (init sk shares results) where
  record _ h := by cases h
  answers := .nil

section
variable {sk : C.SecretKey} {shares results : Tree C} {os : List (Obs C ⊕ Save)} {s : System C}

theorem written_of_run (hjson : C.checkResultResponse.RoundTrips)
    (hrun : Run (noting step saves) anyStep (init sk shares results) os s) :
    Written results (seen os) (notes os) s := by
  refine hrun.invariant (fun os s => Written results (seen os) (notes os) s)
    (.init sk shares results) fun _ h _ hs => ?_
  obtain ⟨hstep, hnotes⟩ := noting_eq_some hs
  rw [seen_append, notes_append, hnotes]
  exact h.step hjson (step_cases hstep)

theorem settled_of_run {x : String} (hyield : Node.YieldOnce C)
    (hjson : C.checkResultResponse.RoundTrips)
    (hrun : Run (noting step saves) anyStep (init sk shares results) os s)
    (honce : admissions x (seen os) ≤ 1) (hfresh : results x = none ∨ admissions x (seen os) = 0) :
    Settled x (seen os) s := by
  refine hrun.invariant (fun os s => admissions x (seen os) ≤ 1 →
    results x = none ∨ admissions x (seen os) = 0 → Settled x (seen os) s)
    (fun _ _ => .init x sk shares results) (fun {os s e t o} hr ih _ hs honce hfresh => ?_)
    honce hfresh
  rw [seen_append] at honce hfresh ⊢
  rw [admissions_append] at honce hfresh
  have hold : results x = none ∨ admissions x (seen os) = 0 := hfresh.imp_right (by omega)
  have honce' : admissions x (seen os) ≤ 1 := by omega
  exact (ih honce' hold).step hjson (written_of_run hjson hr)
    (orderly_of_run hyield hr.of_noting honce') hold (step_cases (noting_eq_some hs).1)

/-- What is written is what was handed to `save_result`, less what the database refused. -/
theorem written_sublist (x : String) (ws : List Save) :
    (written x ws).Sublist (handed x ws) := by
  unfold written taken handed statusesOf
  exact ((List.filter_sublist.map _).filter _).map _

/-- The first status is on record if the database did not refuse it. -/
theorem received_mem_written {x : String} {ws : List Save}
    (hfirst : ∀ w ∈ ws, w.1.requestId = x → w.1.requestStatus = .received → w.2 = true)
    (h : .received ∈ handed x ws) : .received ∈ written x ws := by
  obtain ⟨r, hr, hstatus⟩ := List.mem_map.mp h
  obtain ⟨hmem, hx⟩ := List.mem_filter.mp hr
  obtain ⟨w, hw, rfl⟩ := List.mem_map.mp hmem
  have hx' : w.1.requestId = x := of_decide_eq_true hx
  refine List.mem_map.mpr ⟨w.1, List.mem_filter.mpr ⟨?_, hx⟩, hstatus⟩
  exact List.mem_map_of_mem (List.mem_filter.mpr ⟨hw, hfirst w hw hx' hstatus⟩)

/-- **A request makes progress one way.** In every run, the statuses of an id that was
admitted at most once are handed to the database in order: received, then processing, then
one final status and nothing after it. Those that are written are these less the inserts the
database refused; unless it refused the first, they come in that order from the start. And a
client that has seen the final one sees no other again. -/
theorem progress_of_run {x : String} (hyield : Node.YieldOnce C)
    (hjson : C.checkResultResponse.RoundTrips)
    (hrun : Run (noting step saves) anyStep (init sk shares results) os s)
    (honce : admissions x (seen os) ≤ 1) :
    Progress (handed x (notes os)) ∧
      (written x (notes os)).Sublist (handed x (notes os)) ∧
      ((∀ w ∈ notes os, w.1.requestId = x → w.1.requestStatus = .received → w.2 = true) →
        Progress (written x (notes os))) ∧
      (results x = none ∨ admissions x (seen os) = 0 →
        (polls x (seen os)).Pairwise fun r r' => r.requestStatus.isFinal = true → r' = r) := by
  have hw := written_of_run hjson hrun
  have ho : Orderly x (seen os) s := orderly_of_run hyield hrun.of_noting honce
  have hhanded : Progress (handed x (notes os)) :=
    ho.progress.of_prefix (handed_append_of_queue hw ▸ List.prefix_append _ _)
  have hpart := written_sublist x (notes os)
  refine ⟨hhanded, hpart, fun hfirst => ?_, fun hfresh => ?_⟩
  · exact hhanded.of_sublist hpart (received_mem_written hfirst)
  · exact (settled_of_run hyield hjson hrun honce hfresh).answers

end

end System

namespace Sample

/-! ## A key generated and asked for -/

theorem picked_handleIncoming (k : Rounds) (m : Msg UInt16) :
    (k.handleIncoming m).2.picked = k.picked := by
  unfold Rounds.handleIncoming
  split
  · rfl
  · split <;> rfl

theorem picked_pickOutput {ο : Type} (output : Rounds → ο) (k : Rounds) :
    ((∃ o, (k.pickOutput output).1 = some (.ok o)) ∧ k.picked = false ∧
      (k.pickOutput output).2.picked = true) ∨
    ((∀ o, (k.pickOutput output).1 ≠ some (.ok o)) ∧ (k.pickOutput output).2 = k) := by
  unfold Rounds.pickOutput
  cases hpicked : k.picked with
  | true => exact .inr ⟨by rintro o ⟨⟩, rfl⟩
  | false =>
      by_cases hlast : k.last < k.round
      · simp [hlast]
      · simp [hlast]

theorem yieldsOnce_rounds {ο : Type} (output : Rounds → ο) :
    @YieldsOnce Rounds UInt16 StageError ο (Rounds.machine output) := by
  let _ := Rounds.machine output
  intro k k' n h
  have hpaid : n + (!k'.picked).toNat ≤ 1 := by
    induction h with
    | refl => exact Nat.add_comm _ _ ▸ Bool.toNat_le _
    | handled m _ ih =>
        show _ + (!(Rounds.handleIncoming _ m).2.picked).toNat ≤ 1
        rw [picked_handleIncoming]
        exact ih
    | drained _ ih => exact ih
    | proceeded _ ih => exact ih
    | @yielded _ k' o _ ho ih =>
        rcases picked_pickOutput output k' with ⟨-, hopen, hpicked⟩ | ⟨hnone, -⟩
        · show _ + 1 + (!(k'.pickOutput output).2.picked).toNat ≤ 1
          rw [hpicked]
          rw [hopen] at ih
          exact ih
        · exact absurd ho (hnone o)
    | @picked _ k' _ hnone ih =>
        rcases picked_pickOutput output k' with ⟨⟨o, ho⟩, -⟩ | ⟨-, hsame⟩
        · exact absurd ho (hnone o)
        · show _ + (!(k'.pickOutput output).2.picked).toNat ≤ 1
          rw [hsame]
          exact ih
  omega

theorem yieldOnce (sc : Scenario) : Node.YieldOnce (crates sc) where
  keygen := yieldsOnce_rounds _
  offline := yieldsOnce_rounds _

/-- The client polls while the request waits for the broker, and again at the end;
`insertOk` says whether the database takes the first status. -/
def keygenAsked (insertOk : Bool) : List System.Event :=
  callKeygen "k1" :: completeCall ++
    [.server (.handleResponse insertOk), .server (.checkResult "k1" true), .server (.join true),
      .forward] ++ (runKeygen.tail ++ [Event.mail allWell]).map System.Event.node ++
    [.server (.handleResponse true), .server (.handleResponse true),
      .server (.checkResult "k1" true), .server (.checkResult "k1" true)]

theorem progress_of_keygen :
    ∃ os s, Run (noting System.step System.saves) anyStep (bobsSystem keygen nothing nothing) os s ∧
      System.written "k1" (notes os) = [.received, .processing, .done] ∧
      (System.polls "k1" (seen os)).map (·.requestStatus) = [.received, .done, .done] ∧
      (Progress (System.handed "k1" (notes os)) ∧
        (System.written "k1" (notes os)).Sublist (System.handed "k1" (notes os)) ∧
        ((∀ w ∈ notes os, w.1.requestId = "k1" → w.1.requestStatus = .received → w.2 = true) →
          Progress (System.written "k1" (notes os))) ∧
        (nothing "k1" = none ∨ System.admissions "k1" (seen os) = 0 →
          (System.polls "k1" (seen os)).Pairwise fun r r' =>
            r.requestStatus.isFinal = true → r' = r)) := by
  obtain ⟨os, s, hrun, hend⟩ := Run.ofTest (noting System.step System.saves) anyStep
    (bobsSystem keygen nothing nothing) (keygenAsked true)
    (fun r => decide (System.written "k1" (notes r.2) = [.received, .processing, .done] ∧
      (System.polls "k1" (seen r.2)).map (·.requestStatus) = [.received, .done, .done] ∧
      System.admissions "k1" (seen r.2) = 1)) (by decide +kernel) (admits_anyStep _ _)
  obtain ⟨hwritten, hpolls, honce⟩ := of_decide_eq_true hend
  exact ⟨os, s, hrun, hwritten, hpolls, System.progress_of_run (yieldOnce keygen)
    (checkResultResponse_roundTrips keygen) hrun honce.le⟩

/-- The database refuses one insert, and the first that is ever written of the request is
that it is processing. -/
theorem not_progress_of_refusedInsert :
    Node.YieldOnce (crates keygen) ∧ ∃ os s,
      Run (noting System.step System.saves) anyStep (bobsSystem keygen nothing nothing) os s ∧
        System.admissions "k1" (seen os) = 1 ∧
        System.written "k1" (notes os) = [.processing, .done] ∧
        ¬ Progress (System.written "k1" (notes os)) := by
  obtain ⟨os, s, hrun, hend⟩ := Run.ofTest (noting System.step System.saves) anyStep
    (bobsSystem keygen nothing nothing) (keygenAsked false)
    (fun r => decide (System.written "k1" (notes r.2) = [.processing, .done] ∧
      System.admissions "k1" (seen r.2) = 1)) (by decide +kernel) (admits_anyStep _ _)
  obtain ⟨hwritten, honce⟩ := of_decide_eq_true hend
  refine ⟨yieldOnce keygen, os, s, hrun, honce, hwritten, fun h => ?_⟩
  rw [hwritten] at h
  cases h

end Sample

end MpcServer

import MpcServer.Attendance
import MpcServer.Restarts

/-!
# What a client is never told

A client learns of its request by asking for the last status that was written.
The coordinator stops for good when the stream of the broker ends or a handler
panics, and the gRPC server, which does not notice, goes on to answer `Ok`:
nothing ends any more. And what can be reported as an error is ruled out before
a request is admitted, so no request ever ends in one.
-/

namespace MpcServer

open Rust Machine

variable {C : Crates}

namespace System

/-! ## From what is sent to what is answered -/

/-- What waits for the writer and what is on record under an id is as `P` says. -/
structure Tells (P : String → RequestStatus → Prop) (s : System C) : Prop where
  waiting : ∀ r ∈ s.server.rxRes, P r.requestId r.requestStatus
  recorded : ∀ x b r, s.server.resultsDb x = some b → C.checkResultResponse.read b = some r →
    P x r.requestStatus

/-- The answers of a step are as `P` says. -/
def Answers (P : String → RequestStatus → Prop) (o : List (Obs C)) : Prop :=
  ∀ x r, .server (.checked x (.ok r)) ∈ o → P x r.requestStatus

section
variable {P : String → RequestStatus → Prop} {s t : System C} {e : Event} {o : List (Obs C)}

theorem Tells.of_answer (h : Tells P s) {x : String} {getOk : Bool} {r : CheckResultResponse}
    (hr : s.server.checkResult getOk x = .ok r) : P x r.requestStatus := by
  unfold Server.checkResult at hr
  split at hr
  · cases hentry : s.server.resultsDb x with
    | none => simp [hentry] at hr
    | some b =>
        cases hread : C.checkResultResponse.read b with
        | none => simp [hentry, hread] at hr
        | some r' =>
            simp only [hentry, hread, Except.ok.injEq] at hr
            exact hr ▸ h.recorded x b r' hentry hread
  · cases hr

/-- **As long as every status that is sent is as `P` says, so is every answer.** -/
theorem Tells.step (hjson : C.checkResultResponse.RoundTrips) (h : Tells P s) (hs : Steps s e t o)
    (hsent : ∀ r ∈ sent o, P r.requestId r.requestStatus) : Tells P t ∧ Answers P o := by
  have hnode (o : List (MpcServer.Obs C)) : Answers P (o.map Obs.node) := by
    intro x r hmem
    obtain ⟨_, -, heq⟩ := List.mem_map.mp hmem
    cases heq
  cases hs with
  | server hs =>
      cases hs with
      | refused _ => exact ⟨h, fun x r hmem => by simp at hmem⟩
      | admitted _ => exact ⟨⟨h.waiting, h.recorded⟩, fun x r hmem => by simp at hmem⟩
      | announced _ =>
          refine ⟨⟨fun r hr => ?_, h.recorded⟩, fun x r hmem => by simp at hmem⟩
          rcases List.mem_append.mp hr with hr | hr
          · exact h.waiting r hr
          · exact hsent r hr
      | queued _ _ => exact ⟨⟨h.waiting, h.recorded⟩, fun x r hmem => by simp at hmem⟩
      | lost _ _ => exact ⟨⟨h.waiting, h.recorded⟩, fun x r hmem => by simp at hmem⟩
      | checked =>
          refine ⟨h, fun x r hmem => ?_⟩
          simp only [List.map_cons, List.map_nil, List.mem_singleton, Obs.server.injEq,
            Server.Obs.checked.injEq] at hmem
          obtain ⟨rfl, hr⟩ := hmem
          exact h.of_answer hr.symm
      | @saved insertOk response rest hrx =>
          refine ⟨⟨fun r hr => h.waiting r (hrx ▸ List.mem_cons_of_mem _ hr), ?_⟩,
            fun x r hmem => by cases hmem⟩
          obtain ⟨b, hread, -, hentry⟩ :=
            record_of_save hjson s.server.resultsDb insertOk response
          intro x b' r hb' hr
          have hnew := (hentry x).symm.trans hb'
          split at hnew
          · rename_i hsaved
            cases hnew
            cases hread.symm.trans hr
            exact hsaved.2 ▸ h.waiting response (hrx ▸ List.mem_cons_self)
          · exact h.recorded x b' r hnew hr
      | joined _ => exact ⟨⟨h.waiting, h.recorded⟩, fun x r hmem => by cases hmem⟩
      | left _ => exact ⟨⟨h.waiting, h.recorded⟩, fun x r hmem => by cases hmem⟩
  | forward _ _ _ => exact ⟨⟨h.waiting, h.recorded⟩, hnode _⟩
  | node _ _ _ =>
      refine ⟨⟨fun r hr => ?_, h.recorded⟩, hnode _⟩
      rw [sent_node] at hsent
      exact (List.mem_append.mp hr).elim (h.waiting r) (hsent r)

end

/-! ## Nothing ends after an outage -/

/-- The stream of the broker ends, and the coordinator stops with it. -/
def streamEnds (s : System C) : System C := { s with node := { s.node with alive := false } }

end System

namespace Node

section
variable {n t : Node C} {e : Event} {o : List (Obs C)}

/-- A coordinator that is down stays so and does nothing. -/
theorem Steps.of_dead (hdead : n.alive = false) (hs : Steps n e t o) :
    t.alive = false ∧ ∀ y ∈ o, IsFailure y := by
  have hup (halive : n.alive = true) : False := by simp [hdead] at halive
  cases hs with
  | skipped _ => exact ⟨hdead, fun y hy => by cases hy⟩
  | lost _ => exact ⟨hdead, fun y hy => by cases hy⟩
  | queued halive => exact (hup halive).elim
  | received halive _ => exact (hup halive).elim
  | finished halive => exact (hup halive).elim
  | attempted halive _ _ => exact (hup halive).elim
  | tookMail halive _ => exact (hup halive).elim
  | fired _ => exact ⟨hdead, fun y hy => by cases hy⟩
  | tookRetry halive _ => exact (hup halive).elim
  | ranKG _ _ _ _ _ =>
      refine ⟨hdead, fun y hy => ?_⟩
      obtain rfl := eq_of_mem_failures hy
      trivial
  | ranO _ _ _ _ _ =>
      refine ⟨hdead, fun y hy => ?_⟩
      obtain rfl := eq_of_mem_failures hy
      trivial
  | ranS _ _ _ _ _ _ =>
      refine ⟨hdead, fun y hy => ?_⟩
      obtain rfl := eq_of_mem_failuresS hy
      trivial

end

end Node

namespace Server

theorem received_requestStatus (req : Request) : (received req).requestStatus = .received := by
  cases req <;> rfl

/-- The server itself only ever says that it received a request. -/
theorem Steps.says_received {s t : Server C} {e : Event} {o : List Obs} (hs : Steps s e t o)
    {r : CheckResultResponse} (hr : .sent r ∈ o) : r.requestStatus = .received := by
  cases hs with
  | announced _ =>
      cases List.mem_singleton.mp hr
      exact received_requestStatus _
  | _ => simp at hr

/-- Once the broker is joined a call that gets to its end is answered `Ok`. -/
theorem Steps.answers_ok {s t : Server C} {e : Event} {o : List Obs} (hs : Steps s e t o)
    (hserving : s.bootstrap = .serving) : t.bootstrap = .serving ∧
      ∀ req answer, .returned req answer ∈ o → answer = .ok req.requestId := by
  cases hs with
  | queued _ _ =>
      refine ⟨hserving, fun req answer hr => ?_⟩
      cases List.mem_singleton.mp hr
      rfl
  | lost _ hgone => cases hserving.symm.trans hgone
  | joined _ => exact ⟨rfl, fun req answer hr => by cases hr⟩
  | left hjoining => cases hserving.symm.trans hjoining
  | _ => exact ⟨hserving, fun req answer hr => by simp at hr⟩

end Server

namespace System

/-- What is still seen: a call that comes through is answered `Ok` and announced, and no
answer for the id is final. -/
def Unfinished (x : String) : Obs C → Prop
  | .server (.sent r) => r.requestStatus = .received
  | .server (.returned req answer) => answer = .ok req.requestId
  | .server (.checked y (.ok r)) => y = x → r.requestStatus.isFinal = false
  | .server _ => True
  | .node y => Node.IsFailure y

/-- No final status of the id waits for the writer or is on record. -/
def IsOpen (x : String) : System C → Prop :=
  Tells fun y status => y = x → status.isFinal = false

/-- The coordinator is down, the bootstrap task is not, and the request is open. -/
structure Deserted (x : String) (s : System C) : Prop where
  serving : s.server.bootstrap = .serving
  dead : s.node.alive = false
  isOpen : IsOpen x s

section
variable {x : String} {s t : System C} {e : Event} {o os : List (Obs C)}

theorem mem_sent_server {o : List Server.Obs} {r : CheckResultResponse}
    (h : r ∈ sent (o.map (Obs.server (C := C)))) : .sent r ∈ o := by
  rw [sent_server] at h
  obtain ⟨y, hy, heq⟩ := List.mem_filterMap.mp h
  cases y <;> cases heq
  exact hy

/-- All that is sent then is `Received`. -/
theorem Deserted.step (hjson : C.checkResultResponse.RoundTrips) (h : Deserted x s)
    (hs : Steps s e t o) : Deserted x t ∧ ∀ y ∈ o, Unfinished x y := by
  have hnode {e' n o'} (hn : Node.Steps s.node e' n o') : n.alive = false ∧
      (∀ y ∈ o'.map Obs.node, Unfinished x y) ∧ sent (o'.map Obs.node) = [] := by
    obtain ⟨hdead, ho⟩ := hn.of_dead h.dead
    refine ⟨hdead, fun y hy => ?_, ?_⟩
    · obtain ⟨z, hz, rfl⟩ := List.mem_map.mp hy
      exact ho z hz
    · rw [sent_node]
      refine List.filterMap_eq_nil_iff.mpr fun z hz => ?_
      have hfail := ho z hz
      cases z <;> first | rfl | cases hfail
  -- nothing final is sent, so nothing final is written or answered
  have hopen (hsent : ∀ r ∈ sent o, r.requestStatus = .received) :
      IsOpen x t ∧ Answers (fun y status => y = x → status.isFinal = false) o :=
    h.isOpen.step hjson hs fun r hr _ => by rw [hsent r hr]; rfl
  cases hs with
  | @server e t o hs =>
      obtain ⟨hserving, hreturned⟩ := hs.answers_ok h.serving
      obtain ⟨hstill, hanswers⟩ := hopen fun r hr => hs.says_received (mem_sent_server hr)
      refine ⟨⟨hserving, h.dead, hstill⟩, fun y hy => ?_⟩
      obtain ⟨z, hz, rfl⟩ := List.mem_map.mp hy
      cases z with
      | called req refusal => trivial
      | sent r => exact hs.says_received hz
      | returned req answer => exact hreturned req answer hz
      | checked y answer =>
          cases answer with
          | error _ => trivial
          | ok r => exact hanswers y r hy
  | forward hserving _ hn =>
      obtain ⟨hdead, hfail, hnone⟩ := hnode hn
      exact ⟨⟨hserving, hdead, (hopen fun r hr => by rw [hnone] at hr; cases hr).1⟩, hfail⟩
  | node hserving _ hn =>
      obtain ⟨hdead, hfail, hnone⟩ := hnode hn
      exact ⟨⟨hserving, hdead, (hopen fun r hr => by rw [hnone] at hr; cases hr).1⟩, hfail⟩

/-- **Nothing ends after an outage.** Once the coordinator is down, because the
stream of the broker ended or a handler panicked, every call that comes through
is still answered `Ok`, and no request that has no final status by then ever
gets one: every later answer about it says at most that it is under way. -/
theorem unfinished_of_outage (hjson : C.checkResultResponse.RoundTrips)
    (hserving : s.server.bootstrap = .serving) (hdead : s.node.alive = false)
    (hopen : IsOpen x s)
    (hrun : Run (restarting System.step streamEnds) (untilStop anyStep) s os t) :
    IsOpen x t ∧ ∀ y ∈ os, Unfinished x y := by
  have hinv : Deserted x t ∧ ∀ y ∈ os, Unfinished x y := by
    refine hrun.across (fun os t => Deserted x t ∧ ∀ y ∈ os, Unfinished x y)
      ⟨⟨hserving, hdead, hopen⟩, fun y hy => by cases hy⟩ (fun h => ?_) fun h _ hs => ?_
    · exact ⟨⟨h.1.serving, rfl, h.1.isOpen.waiting, h.1.isOpen.recorded⟩, h.2⟩
    · obtain ⟨hstill, ho⟩ := h.1.step hjson (step_cases hs)
      exact ⟨hstill, fun y hy => (List.mem_append.mp hy).elim (h.2 y) (ho y)⟩
  exact ⟨hinv.1.isOpen, hinv.2⟩

end

end System

/-! ## No request ends in an error -/

namespace Node

/-- The one status `Error` there is goes with a hash that cannot be read. -/
theorem Steps.no_error {n t : Node C} {e : Event} {os o : List (Obs C)} (hq : Genuine os n)
    (hhash : n.ReadsHashes) (hs : Steps n e t o) {r : CheckResultResponse}
    (hr : .effect (.status r) ∈ o) : r.requestStatus ≠ .error := by
  obtain ⟨_, m, _, _, _, hh, hm, hx⟩ := hs.mail_of_effect hr id
  cases hh with
  | keygenRequest hk =>
      cases hk <;> simp only [List.mem_cons, List.not_mem_nil, Effect.status.injEq, reduceCtorEq,
        or_false] at hx
      all_goals
        subst hx
        exact fun h => by cases h
  | signRequest hk =>
      cases hk <;> simp only [List.mem_cons, List.not_mem_nil, Effect.status.injEq, reduceCtorEq,
        or_false, false_or] at hx
      all_goals
        subst hx
        exact fun h => by cases h
  | outgoing hes =>
      obtain ⟨_, heq⟩ := hes _ hx
      cases heq
  | outputKG hk =>
      cases hk with
      | panicked _ => cases hx
      | done _ =>
          cases List.mem_singleton.mp hx
          exact fun h => by cases h
  | @outputO a out _ _ _ hk =>
      cases hk with
      | signing _ =>
          simp only [List.mem_cons, List.not_mem_nil, Effect.status.injEq, reduceCtorEq, or_false,
            false_or] at hx
          subst hx
          exact fun h => by cases h
      | badHash hnone =>
          obtain ⟨i, hi, hinput⟩ := hq.waiting _ (mem_mailbox_of_handled hs hm)
          exact absurd (hinput ▸ hnone) (hhash i (List.mem_of_getElem? hi))
  | outputS =>
      cases List.mem_singleton.mp hx
      exact fun h => by cases h

end Node

namespace System

/-- Every hash there is to sign was read before its request was let in. -/
structure ReadsHashes (s : System C) : Prop where
  genuine : ∃ os, Node.Genuine os s.node
  readable : ∀ req, s.Holds req → Server.Readable C req

theorem ReadsHashes.init (sk : C.SecretKey) (shares results : Tree C) :
    ReadsHashes (init sk shares results) where
  genuine := ⟨[], .init sk shares⟩
  readable := (Tended.init sk shares results).readable

section
variable {s t : System C} {e : Event} {o : List (Obs C)}

theorem ReadsHashes.node (h : ReadsHashes s) : s.node.ReadsHashes := by
  intro i hi
  have hsession : (i.room, .sign i.input) ∈ s.node.registered :=
    List.mem_append_right _ (List.mem_map_of_mem hi)
  exact h.readable (.sign i.input.inner) (.inr (.inr ⟨_, hsession, rfl⟩))

/-- What the server is asked after a step it was asked before, or it has just let it in. -/
theorem asked_before {s t : Server C} {e : Server.Event} {o : List Server.Obs}
    (hs : Server.Steps s e t o) {req : Request} (h : req ∈ t.asked) :
    req ∈ s.asked ∨ Server.Readable C req := by
  rcases List.mem_append.mp h with h | h
  · obtain ⟨c, hc, rfl⟩ := List.mem_map.mp h
    have hold (hc : c ∈ s.calls) : c.request ∈ s.asked ∨ Server.Readable C c.request :=
      .inl (List.mem_append_left _ (List.mem_map_of_mem hc))
    cases hs with
    | admitted hrefusal =>
        refine (List.mem_append.mp hc).elim hold fun hc => .inr ?_
        cases List.mem_singleton.mp hc
        exact Server.readable_of_admitted hrefusal
    | announced hget =>
        rcases List.mem_or_eq_of_mem_set hc with hc | rfl
        · exact hold hc
        · exact .inl (List.mem_append_left _
            (List.mem_map.mpr ⟨_, List.mem_of_getElem? hget, rfl⟩))
    | queued _ _ => exact hold (List.mem_of_mem_eraseIdx hc)
    | lost _ _ => exact hold (List.mem_of_mem_eraseIdx hc)
    | _ => exact hold hc
  · have hold (hr : req ∈ s.rx) : req ∈ s.asked ∨ Server.Readable C req :=
      .inl (List.mem_append_right _ hr)
    cases hs with
    | @queued i _ hget _ =>
        refine (List.mem_append.mp h).elim hold fun h => .inl (List.mem_append_left _ ?_)
        cases List.mem_singleton.mp h
        exact List.mem_map.mpr ⟨_, List.mem_of_getElem? hget, rfl⟩
    | left _ => cases h
    | _ => exact hold h

theorem ReadsHashes.step (h : ReadsHashes s) (hs : Steps s e t o) : ReadsHashes t := by
  obtain ⟨os, hq⟩ := h.genuine
  cases hs with
  | server hs =>
      refine ⟨⟨os, hq⟩, fun req hreq => ?_⟩
      rcases hreq with hreq | hreq
      · exact (asked_before hs hreq).elim (fun hreq => h.readable req (.inl hreq)) id
      · exact h.readable req (.inr hreq)
  | @forward req rest n o _ hrx hn =>
      have hasked {r : Request} (hr : r ∈ req :: rest) : s.Holds r :=
        .inl (List.mem_append_right _ (hrx ▸ hr))
      refine ⟨⟨os ++ o, hq.step hn⟩, fun r hr => h.readable r ?_⟩
      rcases hr with hr | hr
      · rcases List.mem_append.mp hr with hr | hr
        · exact .inl (List.mem_append_left _ hr)
        · exact hasked (List.mem_cons_of_mem _ hr)
      · rcases holds_before hn hr with hr | hr
        · exact .inr hr
        · cases hr
          exact hasked List.mem_cons_self
  | @node e n o _ hnot hn =>
      refine ⟨⟨os ++ o, hq.step hn⟩, fun r hr => h.readable r ?_⟩
      refine hr.imp_right fun hr => (holds_before hn hr).resolve_right ?_
      rintro rfl
      cases hnot

theorem ReadsHashes.sent (h : ReadsHashes s) (hs : Steps s e t o) :
    ∀ r ∈ sent o, r.requestStatus ≠ .error := by
  obtain ⟨os, hq⟩ := h.genuine
  have hnode {e' n o'} (hn : Node.Steps s.node e' n o') :
      ∀ r ∈ System.sent (o'.map Obs.node), r.requestStatus ≠ .error := by
    intro r hr
    rw [sent_node] at hr
    obtain ⟨y, hy, heq⟩ := List.mem_filterMap.mp hr
    cases y with
    | effect f =>
        cases f <;> cases heq
        exact hn.no_error hq h.node hy
    | _ => cases heq
  cases hs with
  | server hs =>
      intro r hr
      rw [hs.says_received (mem_sent_server hr)]
      exact fun heq => by cases heq
  | forward _ _ hn => exact hnode hn
  | node _ _ hn => exact hnode hn

/-- **No request ends in an error.** In every run, across any number of stops,
no status `Error` is sent, and on results without one no client is ever answered
`Error`, whatever part of the trees a stop loses. -/
theorem no_error_of_run (hjson : C.checkResultResponse.RoundTrips)
    {recover : Tree C → Tree C} (htruthful : Truthful recover) {sk : C.SecretKey}
    {shares results : Tree C} {os : List (Obs C)}
    (hclean : ∀ x b r, results x = some b → C.checkResultResponse.read b = some r →
      r.requestStatus ≠ .error)
    (hrun : Run (restarting System.step (again recover)) (untilStop anyStep)
      (init sk shares results) os s) :
    (∀ r ∈ sent os, r.requestStatus ≠ .error) ∧ Answers (fun _ status => status ≠ .error) os := by
  have hinv : (ReadsHashes s ∧ Tells (fun _ status => status ≠ .error) s) ∧
      (∀ r ∈ sent os, r.requestStatus ≠ .error) ∧
        Answers (fun _ status => status ≠ .error) os := by
    refine hrun.across (fun os s => (ReadsHashes s ∧ Tells (fun _ status => status ≠ .error) s) ∧
      (∀ r ∈ sent os, r.requestStatus ≠ .error) ∧ Answers (fun _ status => status ≠ .error) os)
      ⟨⟨.init sk shares results, (fun r hr => by cases hr), hclean⟩, (fun r hr => by cases hr),
        fun x r hr => by cases hr⟩ (fun h => ?_) fun h _ hs => ?_
    · exact ⟨⟨.init _ _ _, (fun r hr => by cases hr),
        fun x b r hb => h.1.2.recorded x b r (htruthful _ x b hb)⟩, h.2⟩
    · obtain ⟨⟨hreads, htells⟩, hsent, hanswers⟩ := h
      have hnew := hreads.sent (step_cases hs)
      obtain ⟨htells', hanswers'⟩ := htells.step hjson (step_cases hs) hnew
      rw [sent_append]
      exact ⟨⟨hreads.step (step_cases hs), htells'⟩, List.forall_mem_append.mpr ⟨hsent, hnew⟩,
        fun x r hr => (List.mem_append.mp hr).elim (hanswers x r) (hanswers' x r)⟩
  exact hinv.2

end

end System

namespace Sample

/-- Bob's coordinator takes a keygen up, and then the stream of the broker ends. -/
def beforeOutage : List (Option System.Event) := beforeStop.map some ++ [none]

/-- His server goes on to serve, and the client asks. -/
def afterOutage : List (Option System.Event) :=
  ((callKeygen "k2" :: completeCall ++ [.forward, .server (.handleResponse true),
    .server (.checkResult "k1" true), .server (.checkResult "k2" true)] : List System.Event)).map
      some

theorem isOpen_of_underWay {s : System (crates keygen)}
    (hrecord : records s.server.resultsDb underWay = true)
    (hwaiting : s.server.rxRes.all (·.requestStatus.isFinal = false) = true) :
    System.IsOpen "k1" s where
  waiting r hr _ := of_decide_eq_true (List.all_eq_true.mp hwaiting r hr)
  recorded x b r hb hr hx := by
    subst hx
    cases (record_of_records hrecord).symm.trans hb
    cases hr
    rfl

theorem unfinished_after_outage :
    ∃ os₀ s os t,
      Run (restarting System.step System.streamEnds) anyStep (bobsSystem keygen nothing nothing)
        os₀ s ∧
      Run (restarting System.step System.streamEnds) (untilStop anyStep) s os t ∧
        System.IsOpen "k1" t ∧ ∀ y ∈ os, System.Unfinished "k1" y := by
  obtain ⟨os₀, s, hbefore, hend⟩ := Run.ofTest (restarting System.step System.streamEnds) anyStep
    (bobsSystem keygen nothing nothing) beforeOutage
    (fun r => (records r.1.server.resultsDb underWay &&
      r.1.server.rxRes.all (·.requestStatus.isFinal = false)) &&
      (decide (r.1.server.bootstrap = .serving ∧ r.1.node.alive = false) &&
      (exec (restarting System.step System.streamEnds) r.1 afterOutage).isSome))
    (by decide +kernel) (admits_anyStep _ _)
  obtain ⟨hopen, hrest⟩ := Bool.and_eq_true_iff.mp hend
  obtain ⟨hdown, hafter⟩ := Bool.and_eq_true_iff.mp hrest
  obtain ⟨hrecord, hwaiting⟩ := Bool.and_eq_true_iff.mp hopen
  obtain ⟨hserving, hdead⟩ := of_decide_eq_true hdown
  obtain ⟨⟨t, os⟩, hexec⟩ := Option.isSome_iff_exists.mp hafter
  have hrun : Run (restarting System.step System.streamEnds) (untilStop anyStep) s os t :=
    (Run.ofExec hexec (admits_anyStep _ _)).weaken fun _ e _ => by cases e <;> trivial
  exact ⟨os₀, s, os, t, hbefore, hrun, System.unfinished_of_outage
    (checkResultResponse_roundTrips keygen) hserving hdead (isOpen_of_underWay hrecord hwaiting)
    hrun⟩

/-- The second life begins with a signing. -/
theorem no_error_of_keyReused :
    ∃ os s, Run (restarting System.step (System.again id)) (untilStop anyStep)
        (bobsSystem keygen nothing nothing) os s ∧
      (∀ r ∈ System.sent os, r.requestStatus ≠ .error) ∧
        System.Answers (fun _ status => status ≠ .error) os := by
  obtain ⟨os, s, hrun, -⟩ := Run.ofTest (restarting System.step (System.again id)) anyStep
    (bobsSystem keygen nothing nothing) keyReused
    (fun r => decide ((System.sent r.2).length = 4)) (by decide +kernel) (admits_anyStep _ _)
  have hlives : Run (restarting System.step (System.again id)) (untilStop anyStep)
      (bobsSystem keygen nothing nothing) os s :=
    hrun.weaken fun _ e _ => by cases e <;> trivial
  exact ⟨os, s, hlives, System.no_error_of_run (checkResultResponse_roundTrips keygen)
    (fun _ => .refl _) (fun x b r hb _ => by cases hb) hlives⟩

end Sample

end MpcServer

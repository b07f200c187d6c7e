import MpcServer.Progress

/-!
# What a refused call leaves behind

A call that is refused at its checks touches nothing. One that has announced its
request and then finds the queue gone answers with an error as well, but its status is
on its way to the database and cannot be called back.
-/

namespace MpcServer

open Machine

variable {C : Crates}

namespace Server

/-- A call with the id stands between its two sends. -/
def Announced (s : Server C) (x : String) : Prop :=
  ∃ c ∈ s.calls, c.announced = true ∧ c.request.requestId = x

theorem step_of_refused {s : Server C} {req : Request} {getOk : Bool} {status : Status}
    (h : s.refusal getOk req = some status) :
    s.step (.call req getOk) = some (s, [.called req (some status)]) := by
  simp only [step, h]

/-- The call that sends its status leaves the others as they are. -/
theorem announced_set {calls : List PendingCall} {i : Nat} {req : Request} {c : PendingCall}
    (hget : calls[i]? = some ⟨req, false⟩) (hc : c ∈ calls) (hann : c.announced = true) :
    c ∈ calls.set i ⟨req, true⟩ := by
  obtain ⟨j, hj⟩ := List.getElem?_of_mem hc
  have hij : i ≠ j := by
    rintro rfl
    cases hget.symm.trans hj
    cases hann
  exact List.mem_of_getElem? ((List.getElem?_set_ne hij).trans hj)

end Server

namespace System

/-- Nobody announces a request that cannot be queued any more: the queue is there when
the status is sent, and it is not dropped between the two sends of a call. -/
def QueueLasts (s : System C) : Event → Prop
  | .server (.announce _) => s.server.bootstrap ≠ .gone
  | .server (.join false) => ∀ c ∈ s.server.calls, c.announced = false
  | _ => True

instance (s : System C) (e : Event) : Decidable (s.QueueLasts e) := by
  unfold QueueLasts
  split <;> infer_instance

/-- A request of the id was queued, or has yet to be and will. -/
def Stands (os : List (Obs C)) (s : System C) (x : String) : Prop :=
  x ∈ queuedIds os ∨ (s.server.bootstrap ≠ .gone ∧ s.server.Announced x)

/-- The queue outlives the calls that count on it; and what the results database and
the queue to it say of received requests is true, or was said before. -/
structure Vouched (results : Tree C) (os : List (Obs C)) (s : System C) : Prop where
  sendable : s.server.bootstrap = .gone → ∀ c ∈ s.server.calls, c.announced = false
  waiting : ∀ r ∈ s.server.rxRes, r.requestStatus = .received → Stands os s r.requestId
  recorded : ∀ x r, s.Reads x r → r.requestStatus = .received →
    Stands os s x ∨ ∃ b, results x = some b ∧ C.checkResultResponse.read b = some r

theorem Vouched.init (sk : C.SecretKey) (shares results : Tree C) :
    Vouched results [] (init sk shares results) where
  sendable h := by cases h
  waiting _ h := by cases h
  recorded _ _ h _ := .inr h

section
variable {results : Tree C} {os o : List (Obs C)} {s t : System C} {e : Event}

/-! ## Who says that a request was received -/

/-- The coordinator never does. -/
theorem not_received_of_node {n n' : Node C} {e : MpcServer.Event} {o : List (MpcServer.Obs C)}
    (h : Node.Steps n e n' o) : ∀ r ∈ o.filterMap reportOf, r.requestStatus ≠ .received := by
  cases h.turns with
  | idle _ ho =>
      rw [Node.filterMap_reportOf_of_idle ho]
      exact fun r hr => nomatch hr
  | @handled amb m rest r c es _ _ hh _ _ _ ho =>
      have hreports : o.filterMap reportOf = Node.reports es := by rw [ho]; rfl
      rw [hreports]
      cases hh.spends with
      | silently hnone _ =>
          rw [hnone]
          exact fun r hr => nomatch hr
      | onwards hone hstatus _ _ =>
          rw [hone, List.forall_mem_singleton, hstatus]
          decide
      | lastly hone hfinal _ _ =>
          rw [hone, List.forall_mem_singleton]
          intro heq
          rw [heq] at hfinal
          cases hfinal

/-- A call does, and goes on to queue its request. -/
theorem stands_of_sent (hg : s.QueueLasts e) (hs : Steps s e t o) :
    ∀ r ∈ sent o, r.requestStatus = .received →
      t.server.bootstrap ≠ .gone ∧ t.server.Announced r.requestId := by
  cases hs with
  | server hs =>
      rw [sent_server]
      cases hs with
      | @announced i req hget =>
          intro r hr _
          obtain rfl := List.mem_singleton.mp hr
          obtain ⟨hi, -⟩ := List.getElem?_eq_some_iff.mp hget
          exact ⟨hg, ⟨req, true⟩, List.mem_set hi _, rfl, (received_requestId req).symm⟩
      | _ => exact fun r hr => nomatch hr
  | forward _ _ hn =>
      rw [sent_node]
      exact fun r hr hreceived => absurd hreceived (not_received_of_node hn r hr)
  | node _ _ hn =>
      rw [sent_node]
      exact fun r hr hreceived => absurd hreceived (not_received_of_node hn r hr)

theorem queuedIds_append (os o : List (Obs C)) :
    queuedIds (os ++ o) = queuedIds os ++ queuedIds o := by
  simp [queuedIds]

theorem Stands.step {x : String} (h : Stands os s x) (hg : s.QueueLasts e)
    (hs : Steps s e t o) : Stands (os ++ o) t x := by
  unfold Stands
  rw [queuedIds_append, List.mem_append]
  rcases h with hqueued | ⟨hthere, c, hc, hann, rfl⟩
  · exact .inl (.inl hqueued)
  · cases hs with
    | server hs =>
        cases hs with
        | admitted _ => exact .inr ⟨hthere, c, List.mem_append_left _ hc, hann, rfl⟩
        | announced hget => exact .inr ⟨hthere, c, Server.announced_set hget hc hann, hann, rfl⟩
        | queued hget _ =>
            rcases List.mem_cons.mp ((Server.calls_perm hget).subset hc) with rfl | hc
            · exact .inl (.inr List.mem_cons_self)
            · exact .inr ⟨hthere, c, hc, hann, rfl⟩
        | lost _ hgone => exact absurd hgone hthere
        | joined _ => exact .inr ⟨fun h => (nomatch h), c, hc, hann, rfl⟩
        | left _ => cases hann.symm.trans (hg c hc)
        | _ => exact .inr ⟨hthere, c, hc, hann, rfl⟩
    | forward _ _ _ => exact .inr ⟨hthere, c, hc, hann, rfl⟩
    | node _ _ _ => exact .inr ⟨hthere, c, hc, hann, rfl⟩

theorem sendable_step (h : s.server.bootstrap = .gone → ∀ c ∈ s.server.calls, c.announced = false)
    (hg : s.QueueLasts e) (hs : Steps s e t o) :
    t.server.bootstrap = .gone → ∀ c ∈ t.server.calls, c.announced = false := by
  intro hgone c hc
  cases hs with
  | server hs =>
      cases hs with
      | admitted _ =>
          rcases List.mem_append.mp hc with hc | hc
          · exact h hgone c hc
          · rw [List.mem_singleton.mp hc]
      | announced _ => exact absurd hgone hg
      | queued hget hthere => exact absurd hgone hthere
      | lost hget _ => exact h hgone c (List.mem_of_mem_eraseIdx hc)
      | joined _ => cases hgone
      | left _ => exact hg c hc
      | _ => exact h hgone c hc
  | forward _ _ _ => exact h hgone c hc
  | node _ _ _ => exact h hgone c hc

theorem Vouched.step (hjson : C.checkResultResponse.RoundTrips) (h : Vouched results os s)
    (hg : s.QueueLasts e) (hs : Steps s e t o) : Vouched results (os ++ o) t := by
  have hsendable := sendable_step h.sendable hg hs
  rcases saves_nil_or hs with ⟨-, hdb, hrx⟩ | ⟨insertOk, response, rest, -, -, hrx, -, hrest, hdb⟩
  · refine ⟨hsendable, fun r hr hreceived => ?_, fun x r hread hreceived => ?_⟩
    · rw [hrx] at hr
      rcases List.mem_append.mp hr with hr | hr
      · exact (h.waiting r hr hreceived).step hg hs
      · exact .inr (stands_of_sent hg hs r hr hreceived)
    · unfold Reads at hread
      rw [hdb] at hread
      exact (h.recorded x r hread hreceived).imp_left fun hx => hx.step hg hs
  · obtain ⟨b, hwritten, -, hrecord⟩ := record_of_save hjson s.server.resultsDb insertOk response
    refine ⟨hsendable, fun r hr hreceived => ?_, fun x r hread hreceived => ?_⟩
    · rw [hrest] at hr
      exact (h.waiting r (hrx ▸ List.mem_cons_of_mem _ hr) hreceived).step hg hs
    · obtain ⟨b', hb', hr⟩ := hread
      rw [hdb, hrecord] at hb'
      by_cases hnew : insertOk = true ∧ response.requestId = x
      · -- the status that was written last had been waiting
        rw [if_pos hnew] at hb'
        cases hb'
        cases hwritten.symm.trans hr
        have hwaited := h.waiting response (hrx ▸ List.mem_cons_self) hreceived
        exact .inl (hnew.2 ▸ hwaited.step hg hs)
      · rw [if_neg hnew] at hb'
        exact (h.recorded x r ⟨b', hb', hr⟩ hreceived).imp_left fun hx => hx.step hg hs

theorem vouched_of_run (hjson : C.checkResultResponse.RoundTrips) {sk : C.SecretKey}
    {shares : Tree C} (hrun : Run step QueueLasts (init sk shares results) os s) :
    Vouched results os s :=
  hrun.invariant _ (.init sk shares results) fun _ h hg hs => h.step hjson hg (step_cases hs)

/-! ## Runs with a call and without -/

/-- A call that gets past its checks returns `Ok`. -/
theorem ok_of_returned (hjson : C.checkResultResponse.RoundTrips) {sk : C.SecretKey}
    {shares : Tree C} (hrun : Run step QueueLasts (init sk shares results) os s) :
    ∀ req answer, .server (.returned req answer) ∈ os → answer = .ok req.requestId := by
  refine hrun.invariant (fun os _ => ∀ req answer, .server (.returned req answer) ∈ os →
    answer = .ok req.requestId) (fun _ _ h => nomatch h) fun hr ih _ hs req answer hmem => ?_
  rcases List.mem_append.mp hmem with hmem | hmem
  · exact ih req answer hmem
  · cases step_cases hs with
    | server hserver =>
        obtain ⟨o, ho, heq⟩ := List.mem_map.mp hmem
        cases heq
        cases hserver with
        | queued _ _ =>
            cases List.mem_singleton.mp ho
            rfl
        | lost hget hgone =>
            have hnot := (vouched_of_run hjson hr).sendable hgone _ (List.mem_of_getElem? hget)
            cases hnot
        | _ => simp at ho
    | forward _ _ _ =>
        obtain ⟨o, -, heq⟩ := List.mem_map.mp hmem
        cases heq
    | node _ _ _ =>
        obtain ⟨o, -, heq⟩ := List.mem_map.mp hmem
        cases heq

/-- In a run of the events `es` the calls that returned an error left nothing. -/
structure Unrecorded (s₀ : System C) (es : List Event) (os : List (Obs C)) (s : System C) :
    Prop where
  /-- A call that gets past its checks returns `Ok`. -/
  succeeds : ∀ req answer, .server (.returned req answer) ∈ os → answer = .ok req.requestId
  /-- Without a call that its checks refuse, the same events lead to the same state, and
  the same is seen but the refusal. -/
  erased : ∀ es₁ req getOk es₂ u os₁ status, es = es₁ ++ .server (.call req getOk) :: es₂ →
    exec step s₀ es₁ = some (u, os₁) → u.server.refusal getOk req = some status →
    ∃ os₂, os = os₁ ++ .server (.called req (some status)) :: os₂ ∧
      exec step s₀ (es₁ ++ es₂) = some (s, os₁ ++ os₂)
  /-- A client that is told that a request was received is told so of a request that was
  queued or is about to be, or was told so from the start. -/
  truthful : ∀ x getOk r, s.server.checkResult getOk x = .ok r → r.requestStatus = .received →
    Stands os s x ∨
      ∃ b, s₀.server.resultsDb x = some b ∧ C.checkResultResponse.read b = some r

theorem reads_of_checkResult {x : String} {getOk : Bool} {r : CheckResultResponse}
    (h : s.server.checkResult getOk x = .ok r) : s.Reads x r := by
  unfold Server.checkResult at h
  split at h
  · split at h
    · cases h
    · rename_i b hb
      split at h
      · rename_i r' hr
        cases h
        exact ⟨b, hb, hr⟩
      · cases h
  · cases h

/-- **A refused call leaves nothing**, in every run in which no request is announced
that cannot be queued any more. -/
theorem unrecorded_of_queueLasts (hjson : C.checkResultResponse.RoundTrips) {sk : C.SecretKey}
    {shares : Tree C} {es : List Event}
    (hexec : exec step (init sk shares results) es = some (s, os))
    (hlasts : Admits step QueueLasts (init sk shares results) es) :
    Unrecorded (init sk shares results) es os s := by
  have hrun := Run.ofExec hexec hlasts
  refine ⟨ok_of_returned hjson hrun, ?_, fun x getOk r hchecked hreceived => ?_⟩
  · rintro es₁ req getOk es₂ u os₁ status rfl hbefore hrefused
    have hstill : step u (.server (.call req getOk)) =
        some (u, [.server (.called req (some status))]) := by
      simp [step, Server.step_of_refused hrefused]
    exact exec_erase hexec hbefore hstill
  · exact (vouched_of_run hjson hrun).recorded x r (reads_of_checkResult hchecked) hreceived

end

end System

namespace Sample

/-- The calls that returned an error. -/
def failures {C : Crates} (os : List (System.Obs C)) : List (Request × Status) :=
  os.filterMap fun
    | .server (.returned req (.error status)) => some (req, status)
    | _ => none

/-- A call, its record, and a second call with its id, which is refused. -/
def askedTwice : List System.Event :=
  callKeygen "k1" :: completeCall ++ [.server (.handleResponse true), callKeygen "k1",
    .server (.checkResult "k1" true)]

theorem unrecorded_of_second :
    ∃ os s, exec System.step (bobsSystem {} nothing nothing) askedTwice = some (s, os) ∧
      System.Unrecorded (bobsSystem {} nothing nothing) askedTwice os s := by
  have htest : (exec (guarded System.step System.QueueLasts) (bobsSystem {} nothing nothing)
      askedTwice).isSome = true := by decide
  obtain ⟨⟨s, os⟩, hguarded⟩ := Option.isSome_iff_exists.mp htest
  obtain ⟨hexec, hlasts⟩ := exec_of_guarded hguarded
  exact ⟨os, s, hexec,
    System.unrecorded_of_queueLasts (checkResultResponse_roundTrips {}) hexec hlasts⟩

/-- The broker cannot be joined, and the queue of requests is gone. -/
def unjoined : List System.Event := [.server (.join false)]

/-- Then a call returns an error, and its status is written. -/
def askedUnjoined : List System.Event :=
  unjoined ++ callKeygen "k1" :: completeCall ++ [.server (.handleResponse true)]

/-- The call that could not be queued has left a record: its id is taken, and a client
that polls for it hears that the request was received. -/
theorem recorded_of_unjoined :
    ∃ s os s' os', exec System.step (bobsSystem {} nothing nothing) askedUnjoined = some (s, os) ∧
      exec System.step (bobsSystem {} nothing nothing) unjoined = some (s', os') ∧
      failures os = [(.keygen (keygenOf "k1" [.alice, .bob] 1), .notQueued)] ∧
      System.queuedIds os = [] ∧ s.server.rxRes = [] ∧ s'.server.rxRes = [] ∧
      (s.server.resultsDb "k1").isSome = true ∧ (s'.server.resultsDb "k1").isSome = false ∧
      s.server.refusal true (.keygen (keygenOf "k1" [.alice, .bob] 1)) =
        some (.alreadyExists "k1") ∧
      s'.server.refusal true (.keygen (keygenOf "k1" [.alice, .bob] 1)) = none ∧
      (s.server.checkResult true "k1").toOption.map (·.requestStatus) = some .received := by
  have htest : (exec System.step (bobsSystem {} nothing nothing) askedUnjoined).any (fun r =>
      (exec System.step (bobsSystem {} nothing nothing) unjoined).any fun r' => decide
        (failures r.2 = [(.keygen (keygenOf "k1" [.alice, .bob] 1), .notQueued)] ∧
        System.queuedIds r.2 = [] ∧ r.1.server.rxRes = [] ∧ r'.1.server.rxRes = [] ∧
        (r.1.server.resultsDb "k1").isSome = true ∧ (r'.1.server.resultsDb "k1").isSome = false ∧
        r.1.server.refusal true (.keygen (keygenOf "k1" [.alice, .bob] 1)) =
          some (.alreadyExists "k1") ∧
        r'.1.server.refusal true (.keygen (keygenOf "k1" [.alice, .bob] 1)) = none ∧
        (r.1.server.checkResult true "k1").toOption.map (·.requestStatus) =
          some .received)) = true := by
    decide
  obtain ⟨⟨s, os⟩, hwith, htest⟩ := (Option.any_eq_true _ _).mp htest
  obtain ⟨⟨s', os'⟩, hwithout, htest⟩ := (Option.any_eq_true _ _).mp htest
  exact ⟨s, os, s', os', hwith, hwithout, of_decide_eq_true htest⟩

end Sample

end MpcServer

import Mathlib.Data.List.Nodup
import MpcServer.Lib.Registry
import MpcServer.System
import MpcServer.Actors.Mailbox
import MpcServer.Sample

/-!
# One request an id

A call finds out from the database of results whether its id is taken, and the
database hears of a request from another task, some time after the call has
returned. Ids stay unique as long as that task keeps ahead of the lookups.
-/

namespace MpcServer

open Machine

variable {C : Crates}

namespace Server

/-! ## What stands for a request -/

/-- A status of the id waits for the writer. -/
def Waits (s : Server C) (x : String) : Prop := ∃ r ∈ s.rxRes, r.requestId = x

/-- A call with the id has passed its checks and not returned. -/
def InProgress (s : Server C) (x : String) : Prop := ∃ c ∈ s.calls, c.request.requestId = x

instance (s : Server C) (x : String) : Decidable (s.Waits x) :=
  inferInstanceAs (Decidable (∃ r ∈ s.rxRes, r.requestId = x))

instance (s : Server C) (x : String) : Decidable (s.InProgress x) :=
  inferInstanceAs (Decidable (∃ c ∈ s.calls, c.request.requestId = x))

/-- The database answers, and where it has no record of an id it is not behind:
no call of that id has announced a request that is not written yet. -/
def UpToDate (s : Server C) : Event → Prop
  | .call req getOk =>
      getOk = true ∧ ((s.resultsDb req.requestId).isNone →
        ¬ s.InProgress req.requestId ∧ ¬ s.Waits req.requestId)
  | .checkResult requestId getOk =>
      getOk = true ∧ ((s.resultsDb requestId).isNone → s.Waits requestId → s.InProgress requestId)
  | .handleResponse insertOk => insertOk = true
  | _ => True

instance (s : Server C) (e : Event) : Decidable (s.UpToDate e) := by
  unfold UpToDate
  split <;> infer_instance

/-- The id of a call that passed the check. -/
def admittedId : Obs → Option String
  | .called req none => some req.requestId
  | _ => none

/-- The id of a call that was answered `Ok`. -/
def queuedId : Obs → Option String
  | .returned req (.ok _) => some req.requestId
  | _ => none

/-- The ids of the requests that were queued, and of those about to be. -/
def ids (os : List Obs) (s : Server C) : List String :=
  os.filterMap queuedId ++ s.calls.map (·.request.requestId)

/-- Every admitted id has a call, a waiting status or a record to it, and no
two requests have one. -/
structure Recorded (os : List Obs) (s : Server C) : Prop where
  once : (ids os s).Nodup
  admitted : ∀ x ∈ ids os s, x ∈ os.filterMap admittedId
  tracked : ∀ x ∈ os.filterMap admittedId,
    s.resultsDb x ≠ none ∨ s.Waits x ∨ s.InProgress x
  announced : ∀ c ∈ s.calls, c.announced = true →
    s.resultsDb c.request.requestId ≠ none ∨ s.Waits c.request.requestId
  readable : ∀ x ∈ os.filterMap admittedId, ∀ b, s.resultsDb x = some b →
    ∃ r, C.checkResultResponse.read b = some r

theorem Recorded.init (db : Tree C) : Recorded [] (init db) where
  once := List.nodup_nil
  admitted _ h := by cases h
  tracked _ h := by cases h
  announced _ h := by cases h
  readable _ h := by cases h

section
variable {os o : List Obs} {s t : Server C} {e : Event}

theorem ids_append (os : List Obs) (ho : o.filterMap queuedId = [])
    (hcalls : t.calls.map (·.request.requestId) = s.calls.map (·.request.requestId)) :
    ids (os ++ o) t = ids os s := by
  rw [ids, List.filterMap_append, ho, List.append_nil, hcalls, ids]

/-- A step that admits nobody and leaves the database alone. -/
theorem Recorded.still (h : Recorded os s) (hids : (ids (os ++ o) t).Subperm (ids os s))
    (ho : o.filterMap admittedId = []) (hdb : t.resultsDb = s.resultsDb)
    (htracked : ∀ x, s.InProgress x → s.resultsDb x ≠ none ∨ t.Waits x ∨ t.InProgress x)
    (hannounced : ∀ c ∈ t.calls, c.announced = true → c ∈ s.calls ∨ t.Waits c.request.requestId)
    (hwaits : ∀ x, s.Waits x → t.Waits x) : Recorded (os ++ o) t := by
  have hsame : (os ++ o).filterMap admittedId = os.filterMap admittedId := by
    rw [List.filterMap_append, ho, List.append_nil]
  refine ⟨?_, fun x hx => ?_, fun x hx => ?_, fun c hc hann => ?_, fun x hx b hb => ?_⟩
  · obtain ⟨l, hperm, hsub⟩ := hids
    exact hperm.nodup_iff.mp (h.once.sublist hsub)
  · rw [hsame]
    exact h.admitted x (hids.subset hx)
  · rw [hsame] at hx
    rw [hdb]
    rcases h.tracked x hx with hr | hw | hc
    · exact .inl hr
    · exact .inr (.inl (hwaits x hw))
    · exact htracked x hc
  · rw [hdb]
    rcases hannounced c hc hann with hold | hw
    · exact (h.announced c hold hann).imp_right (hwaits _)
    · exact .inr hw
  · rw [hsame] at hx
    exact h.readable x hx b (hdb ▸ hb)

/-- A fresh id is admitted. -/
theorem Recorded.admit (h : Recorded os s) {req : Request}
    (hnone : s.resultsDb req.requestId = none) (hcalls : ¬ s.InProgress req.requestId)
    (hwaits : ¬ s.Waits req.requestId) :
    Recorded (os ++ [.called req none])
      { s with calls := s.calls ++ [{ request := req, announced := false }] } := by
  -- an id that was admitted has a record, waits or is in progress; this one does not
  have hfresh : req.requestId ∉ os.filterMap admittedId := fun hx =>
    (h.tracked _ hx).elim (fun hb => hb hnone) fun hor => hor.elim hwaits hcalls
  have hadmitted : (os ++ [Obs.called req none]).filterMap admittedId =
      os.filterMap admittedId ++ [req.requestId] := by
    rw [List.filterMap_append]
    rfl
  have hids : ids (os ++ [.called req none])
      { s with calls := s.calls ++ [{ request := req, announced := false }] } =
        ids os s ++ [req.requestId] := by
    simp [ids, queuedId, List.append_assoc]
  refine ⟨?_, fun x hx => ?_, fun x hx => ?_, fun c hc hann => ?_, fun x hx b hb => ?_⟩
  · rw [hids]
    refine List.nodup_append.mpr ⟨h.once, List.nodup_singleton _, fun x hx y hy => ?_⟩
    rintro rfl
    exact hfresh (List.mem_singleton.mp hy ▸ h.admitted x hx)
  · rw [hids] at hx
    rw [hadmitted]
    exact List.mem_append.mpr ((List.mem_append.mp hx).imp_left (h.admitted x))
  · rw [hadmitted] at hx
    rcases List.mem_append.mp hx with hx | hx
    · refine (h.tracked x hx).imp_right fun hor => hor.imp_right ?_
      rintro ⟨c, hc, hcx⟩
      exact ⟨c, List.mem_append_left _ hc, hcx⟩
    · obtain rfl := List.mem_singleton.mp hx
      exact .inr (.inr ⟨_, List.mem_append_right _ List.mem_cons_self, rfl⟩)
  · rcases List.mem_append.mp hc with hc | hc
    · exact h.announced c hc hann
    · obtain rfl := List.mem_singleton.mp hc
      cases hann
  · rw [hadmitted] at hx
    rcases List.mem_append.mp hx with hx | hx
    · exact h.readable x hx b hb
    · obtain rfl := List.mem_singleton.mp hx
      cases hnone.symm.trans hb

/-- The writer saves the status at the head of its queue. -/
theorem Recorded.save (hjson : C.checkResultResponse.RoundTrips) (h : Recorded os s)
    {response : CheckResultResponse} {rest : List CheckResultResponse}
    (hrx : s.rxRes = response :: rest) :
    Recorded os { s with
      rxRes := rest
      resultsDb := (saveResult s.resultsDb true response).getD s.resultsDb } := by
  obtain ⟨v, hsave, hread⟩ := saveResult_eq s.resultsDb hjson response
  rw [hsave, Option.getD_some]
  have hmoved : ∀ x, s.resultsDb x ≠ none ∨ s.Waits x →
      Function.update s.resultsDb response.requestId (some v) x ≠ none ∨
        ∃ r ∈ rest, r.requestId = x := by
    intro x hx
    by_cases hr : x = response.requestId
    · exact .inl (by simp [hr])
    · rw [Function.update_of_ne hr]
      refine hx.imp_right ?_
      rintro ⟨r, hmem, hrid⟩
      rw [hrx] at hmem
      rcases List.mem_cons.mp hmem with rfl | hmem
      · exact absurd hrid.symm hr
      · exact ⟨r, hmem, hrid⟩
  refine ⟨h.once, h.admitted, fun x hx => ?_, fun c hc hann => hmoved _ (h.announced c hc hann),
    fun x hx b hb => ?_⟩
  · rcases h.tracked x hx with hr | hw | hc
    · exact (hmoved x (.inl hr)).imp_right .inl
    · exact (hmoved x (.inr hw)).imp_right .inl
    · exact .inr (.inr hc)
  · by_cases hr : x = response.requestId
    · subst hr
      simp only [Function.update_self, Option.some.injEq] at hb
      exact ⟨response, hb ▸ hread⟩
    · simp only [Function.update_of_ne hr] at hb
      exact h.readable x hx b hb

theorem calls_perm {i : Nat} {c : PendingCall} (hget : s.calls[i]? = some c) :
    s.calls.Perm (c :: s.calls.eraseIdx i) := by
  obtain ⟨hi, rfl⟩ := List.getElem?_eq_some_iff.mp hget
  exact (List.getElem_cons_eraseIdx_perm hi).symm

/-- A call that has announced its request returns. -/
theorem Recorded.return (h : Recorded os s) {i : Nat} {req : Request}
    (hget : s.calls[i]? = some ⟨req, true⟩) {t : Server C} {answer : Except Status String}
    (hcalls : t.calls = s.calls.eraseIdx i) (hdb : t.resultsDb = s.resultsDb)
    (hrx : t.rxRes = s.rxRes) : Recorded (os ++ [.returned req answer]) t := by
  have hperm := calls_perm hget
  have hwaits : ∀ x, s.Waits x → t.Waits x := fun x ⟨r, hr, hx⟩ => ⟨r, hrx ▸ hr, hx⟩
  refine h.still ?_ rfl hdb (fun x hx => ?_) (fun c hc _ => .inl ?_) hwaits
  · have hids : (ids os s).Perm
        (os.filterMap queuedId ++ req.requestId :: t.calls.map (·.request.requestId)) := by
      rw [hcalls]
      exact (hperm.map _).append_left _
    refine List.Subperm.trans ?_ hids.symm.subperm
    cases answer with
    | error _ =>
        rw [ids, List.filterMap_append, List.append_assoc]
        exact ((List.sublist_cons_self _ _).append_left _).subperm
    | ok _ =>
        rw [ids, List.filterMap_append, List.append_assoc]
        exact .refl _
  · obtain ⟨c, hc, rfl⟩ := hx
    rcases List.mem_cons.mp (hperm.subset hc) with rfl | hc
    · exact (h.announced _ hc rfl).imp_right fun hw => .inl (hwaits _ hw)
    · exact .inr (.inr ⟨c, hcalls ▸ hc, rfl⟩)
  · exact hperm.symm.subset (List.mem_cons_of_mem _ (hcalls ▸ hc))

theorem Recorded.step (hjson : C.checkResultResponse.RoundTrips) (h : Recorded os s)
    (hg : s.UpToDate e) (hs : Steps s e t o) : Recorded (os ++ o) t := by
  have hsilent : o.filterMap queuedId = [] → o.filterMap admittedId = [] →
      t.calls = s.calls → t.resultsDb = s.resultsDb → t.rxRes = s.rxRes →
      Recorded (os ++ o) t := by
    intro hqueued ho hcalls hdb hrx
    have hids := ids_append os hqueued (congrArg (List.map _) hcalls)
    refine h.still (by rw [hids]) ho hdb (fun x ⟨c, hc, hx⟩ => .inr (.inr ⟨c, hcalls ▸ hc, hx⟩))
      (fun c hc _ => .inl (hcalls ▸ hc)) fun x ⟨r, hr, hx⟩ => ⟨r, hrx ▸ hr, hx⟩
  cases hs with
  | refused _ => exact hsilent rfl rfl rfl rfl rfl
  | admitted hnone =>
      have hdb := no_record_of_admitted (hg.1 ▸ hnone)
      obtain ⟨hcalls, hwaits⟩ := hg.2 (by simp [hdb])
      exact h.admit hdb hcalls hwaits
  | @announced i req hget =>
      have hsame : (s.calls.set i ⟨req, true⟩).map (·.request.requestId) =
          s.calls.map (·.request.requestId) := Node.map_set_of_eq hget rfl
      refine h.still (by rw [ids_append os rfl hsame]) rfl rfl (fun x hx => ?_)
        (fun c hc _ => ?_) fun x ⟨r, hr, hx⟩ => ⟨r, List.mem_append_left _ hr, hx⟩
      · obtain ⟨c, hc, rfl⟩ := hx
        have hmem := List.mem_map_of_mem (f := (·.request.requestId)) hc
        rw [← hsame] at hmem
        obtain ⟨c', hc', hid⟩ := List.mem_map.mp hmem
        exact .inr (.inr ⟨c', hc', hid⟩)
      · rcases List.mem_or_eq_of_mem_set hc with hc | rfl
        · exact .inl hc
        · exact .inr ⟨_, List.mem_append_right _ List.mem_cons_self, by simp⟩
  | queued hget _ => exact h.return hget rfl rfl rfl
  | lost hget _ => exact h.return hget rfl rfl rfl
  | checked => exact hsilent rfl rfl rfl rfl rfl
  | saved hrx =>
      cases hg
      rw [List.append_nil]
      exact h.save hjson hrx
  | joined _ => exact hsilent rfl rfl rfl rfl rfl
  | left _ => exact hsilent rfl rfl rfl rfl rfl

end

end Server

namespace System

/-! ## The server and the coordinator together -/

/-- What the server has put out. -/
def serverObs : Obs C → Option Server.Obs
  | .server o => some o
  | .node _ => none

theorem filterMap_serverObs_server (o : List Server.Obs) :
    (o.map (Obs.server (C := C))).filterMap serverObs = o := by
  simp [List.filterMap_map, Function.comp_def, serverObs]

theorem filterMap_serverObs_node (o : List (MpcServer.Obs C)) :
    (o.map Obs.node).filterMap serverObs = [] := by
  simp [List.filterMap_map, Function.comp_def, serverObs]

/-- The ids of the calls that returned `Ok`, which are those of the requests queued. -/
def queuedIds (os : List (Obs C)) : List String :=
  (os.filterMap serverObs).filterMap Server.queuedId

/-- The same for a step of the whole. -/
def UpToDate (s : System C) : Event → Prop
  | .server e => s.server.UpToDate e
  | _ => True

instance (s : System C) (e : Event) : Decidable (s.UpToDate e) := by
  unfold UpToDate
  split <;> infer_instance

/-- The operations on the database of results succeed. -/
def DatabaseAnswers (_ : System C) : Event → Prop
  | .server (.call _ ok) | .server (.checkResult _ ok) | .server (.handleResponse ok) => ok = true
  | _ => True

instance (s : System C) (e : Event) : Decidable (s.DatabaseAnswers e) := by
  unfold DatabaseAnswers
  split <;> infer_instance

/-- After a call with the id has returned `Ok`, a call with it is refused and
`check_result` finds a record. -/
def AnswersRight (os : List (Obs C)) : Obs C → Prop
  | .server (.called req refusal) =>
      req.requestId ∈ queuedIds os → refusal = some (.alreadyExists req.requestId)
  | .server (.checked requestId answer) => requestId ∈ queuedIds os → ∃ r, answer = .ok r
  | _ => True

/-- No id is admitted again, and no player gives its registration up to another
one that was started for its id. -/
structure AdmitsOnce (os : List (Obs C)) (s : System C) : Prop where
  answers : Throughout AnswersRight os
  queued : (queuedIds os).Nodup
  started : s.node.startedIds.Nodup
  keygen : ∀ a b i j, s.node.identitiesKG[a]? = some i → s.node.identitiesKG[b]? = some j →
    s.node.coordinator.keygenRunners i.room = some b →
    j.input.requestId = i.input.requestId → b = a
  offline : ∀ a b i j, s.node.identitiesO[a]? = some i → s.node.identitiesO[b]? = some j →
    s.node.coordinator.offlineStateRunners i.room = some b →
    j.input.inner.requestId = i.input.inner.requestId → b = a

/-- Every request there is, waiting or with a player, was queued. -/
structure Admitted (os : List (Obs C)) (s : System C) : Prop where
  recorded : Server.Recorded (os.filterMap serverObs) s.server
  answers : Throughout AnswersRight os
  demand : ∀ x, (s.server.rx.map Request.requestId).count x + s.node.demand x ≤
    (queuedIds os).count x

theorem Admitted.init (sk : C.SecretKey) (shares results : Tree C) :
    Admitted [] (init sk shares results) where
  recorded := .init results
  answers := .nil _
  demand _ := Nat.zero_le _

section
variable {os o : List (Obs C)} {s t : System C} {e : Event}

theorem record_of_queued {os : List Server.Obs} {s : Server C} (h : Server.Recorded os s)
    {x : String} (hx : x ∈ os.filterMap Server.queuedId)
    (hbehind : (s.resultsDb x).isNone → s.Waits x → s.InProgress x) :
    ∃ b, s.resultsDb x = some b := by
  cases hdb : s.resultsDb x with
  | some b => exact ⟨b, rfl⟩
  | none =>
      have hcall : s.InProgress x := by
        rcases h.tracked x (h.admitted x (List.mem_append_left _ hx)) with hr | hw | hc
        · exact absurd hdb hr
        · exact hbehind (by simp [hdb]) hw
        · exact hc
      -- a call in progress is none of the queued ones
      obtain ⟨c, hc, rfl⟩ := hcall
      exact absurd rfl ((List.nodup_append.mp h.once).2.2 _ hx _ (List.mem_map_of_mem hc))

theorem answersRight_of_called (h : Server.Recorded (os.filterMap serverObs) s.server)
    {req : Request} {getOk : Bool} {refusal : Option Status}
    (hg : s.server.UpToDate (.call req getOk)) (hr : s.server.refusal getOk req = refusal) :
    AnswersRight os (.server (.called req refusal)) := by
  intro hx
  obtain ⟨rfl, hfresh⟩ := hg
  obtain ⟨b, hb⟩ := record_of_queued h hx fun hnone hw => absurd hw (hfresh hnone).2
  rw [← hr]
  exact Server.refusal_of_record (by simp [hb])

theorem answersRight_of_checked (h : Server.Recorded (os.filterMap serverObs) s.server)
    {requestId : String} {getOk : Bool} (hg : s.server.UpToDate (.checkResult requestId getOk)) :
    AnswersRight os (.server (.checked requestId (s.server.checkResult getOk requestId))) := by
  intro hx
  obtain ⟨rfl, hbehind⟩ := hg
  obtain ⟨b, hb⟩ := record_of_queued h hx hbehind
  obtain ⟨r, hr⟩ := h.readable requestId (h.admitted _ (List.mem_append_left _ hx)) b hb
  exact ⟨r, Server.checkResult_of_record hb hr⟩

theorem Admitted.server (h : Admitted os s) {e : Server.Event} {u : Server C}
    {o : List Server.Obs} (hjson : C.checkResultResponse.RoundTrips) (hg : s.server.UpToDate e)
    (hs : Server.Steps s.server e u o) :
    Admitted (os ++ o.map Obs.server) { s with server := u } := by
  have hrecorded := h.recorded.step hjson hg hs
  have hobs : (os ++ o.map Obs.server).filterMap serverObs = os.filterMap serverObs ++ o := by
    rw [List.filterMap_append, filterMap_serverObs_server]
  have hqueued : queuedIds (os ++ o.map Obs.server) =
      queuedIds os ++ o.filterMap Server.queuedId := by
    rw [queuedIds, hobs, List.filterMap_append, queuedIds]
  refine ⟨hobs ▸ hrecorded, ?_, fun x => ?_⟩
  · cases hs with
    | refused hr => exact h.answers.append_singleton (answersRight_of_called h.recorded hg hr)
    | admitted hr => exact h.answers.append_singleton (answersRight_of_called h.recorded hg hr)
    | checked => exact h.answers.append_singleton (answersRight_of_checked h.recorded hg)
    | announced _ => exact h.answers.append_singleton trivial
    | queued _ _ => exact h.answers.append_singleton trivial
    | lost _ _ => exact h.answers.append_singleton trivial
    | _ => simpa using h.answers
  · have hx := h.demand x
    rw [hqueued, List.count_append]
    cases hs with
    | queued _ _ =>
        simp only [List.map_append, List.count_append, List.map_cons, List.map_nil]
        simp only [List.filterMap_cons, Server.queuedId, List.filterMap_nil]
        omega
    | left _ =>
        simp only [List.map_nil, List.count_nil]
        omega
    | _ => exact Nat.le_trans hx (Nat.le_add_right _ _)

theorem Admitted.step (hjson : C.checkResultResponse.RoundTrips) (h : Admitted os s)
    (hg : s.UpToDate e) (hs : Steps s e t o) : Admitted (os ++ o) t := by
  have hsame : ∀ o : List (MpcServer.Obs C),
      (os ++ o.map Obs.node).filterMap serverObs = os.filterMap serverObs := by
    intro o
    rw [List.filterMap_append, filterMap_serverObs_node, List.append_nil]
  have hanswers : ∀ o : List (MpcServer.Obs C), Throughout AnswersRight (os ++ o.map Obs.node) := by
    refine fun o => h.answers.append fun o₁ x o₂ ho => ?_
    obtain ⟨y, -, rfl⟩ := List.mem_map.mp (ho ▸ List.mem_append_right _ List.mem_cons_self)
    trivial
  have hqueued : ∀ o : List (MpcServer.Obs C), queuedIds (os ++ o.map Obs.node) = queuedIds os :=
    fun o => by rw [queuedIds, hsame o, queuedIds]
  cases hs with
  | server hs => exact h.server hjson hg hs
  | @forward req rest n o _ hrx hn =>
      refine ⟨?_, hanswers o, fun x => ?_⟩
      · rw [hsame o]
        exact ⟨h.recorded.once, h.recorded.admitted, h.recorded.tracked, h.recorded.announced,
          h.recorded.readable⟩
      · have hx := h.demand x
        have hle := hn.demand_request_le x
        rw [hqueued o]
        rw [hrx, List.map_cons, List.count_cons] at hx
        simp only [List.count_cons, List.count_nil] at hle
        have hsum : (rest.map Request.requestId).count x + n.demand x ≤ (queuedIds os).count x := by
          omega
        exact hsum
  | @node e n o _ hreq hn =>
      refine ⟨?_, hanswers o, fun x => ?_⟩
      · rw [hsame o]
        have hwaits : ∀ x, s.server.Waits x →
            (report s.server (o.filterMap reportOf)).Waits x :=
          fun x ⟨r, hr, hx⟩ => ⟨r, List.mem_append_left _ hr, hx⟩
        exact ⟨h.recorded.once, h.recorded.admitted,
          fun x hx => (h.recorded.tracked x hx).imp_right fun hor => hor.imp_left (hwaits x),
          fun c hc hann => (h.recorded.announced c hc hann).imp_right (hwaits _),
          h.recorded.readable⟩
      · have hle := hn.demand_le (fun req he => by rw [he] at hreq; cases hreq) x
        have hx := h.demand x
        rw [hqueued o]
        exact Nat.le_trans (Nat.add_le_add_left hle _) hx

theorem Admitted.admitsOnce (h : Admitted os s) : AdmitsOnce os s := by
  have hqueued : (queuedIds os).Nodup := (List.nodup_append.mp h.recorded.once).1
  have hstarted : s.node.startedIds.Nodup := by
    refine List.nodup_iff_count_le_one.mpr fun x => ?_
    have hone := List.nodup_iff_count_le_one.mp hqueued x
    have hx := h.demand x
    simp only [Node.demand] at hx
    omega
  obtain ⟨hkeygen, hoffline, -⟩ := List.nodup_append.mp hstarted
  refine ⟨h.answers, hqueued, hstarted, ?_, ?_⟩
  · intro a b i j ha hb _ hid
    refine Registry.eq_of_same_key hkeygen (k := i.input.requestId) ?_ ?_
    · simp [ha]
    · simp [hb, hid]
  · intro a b i j ha hb _ hid
    refine Registry.eq_of_same_key hoffline (k := i.input.inner.requestId) ?_ ?_
    · simp [ha]
    · simp [hb, hid]

/-- **An id is admitted once**, in every run in which the database of results is
never behind where a call looks its id up. -/
theorem admitsOnce_of_upToDate (hjson : C.checkResultResponse.RoundTrips) {sk : C.SecretKey}
    {shares results : Tree C} (hrun : Run step UpToDate (init sk shares results) os s) :
    AdmitsOnce os s := by
  have h : Admitted os s := hrun.invariant _ (.init sk shares results) fun _ h hg hs =>
    h.step hjson hg (step_cases hs)
  exact h.admitsOnce

end

end System

namespace Sample

/-- Bob's server, with these shares and results. -/
def bobsSystem (sc : Scenario) (shares results : String → Option Blob) : System (crates sc) :=
  System.init (C := crates sc) Party.bob shares results

theorem checkResultResponse_roundTrips (sc : Scenario) :
    (crates sc).checkResultResponse.RoundTrips := fun r => ⟨.result r, rfl, rfl⟩

/-- A client asks for a keygen under this id. -/
def callKeygen (requestId : String) : System.Event :=
  .server (.call (.keygen (keygenOf requestId [.alice, .bob] 1)) true)

/-- The two sends of a call, and `Ok`. -/
def completeCall : List System.Event := [.server (.announce 0), .server (.queue 0)]

/-- The record is written before the client asks and calls again. -/
theorem admitsOnce_after_write :
    ∃ os s, Run System.step System.UpToDate (bobsSystem {} nothing nothing) os s ∧
      System.queuedIds os = ["k1"] ∧ s.node.startedIds = ["k1"] ∧ System.AdmitsOnce os s := by
  obtain ⟨os, s, hrun, hend⟩ := Run.ofGuardedTest System.step
    System.UpToDate (bobsSystem {} nothing nothing)
    (callKeygen "k1" :: completeCall ++ [.server (.handleResponse true),
      .server (.checkResult "k1" true), callKeygen "k1", .server (.join true), .forward,
      .node (.mail allWell)])
    (fun r => decide (System.queuedIds r.2 = ["k1"] ∧ r.1.node.startedIds = ["k1"]))
    (by decide +kernel)
  obtain ⟨hqueued, hstarted⟩ := of_decide_eq_true hend
  exact ⟨os, s, hrun, hqueued, hstarted,
    System.admitsOnce_of_upToDate (checkResultResponse_roundTrips {}) hrun⟩

/-- Two calls of one id both return `Ok` before the writer runs, and the player
of the second takes the place of the first one's. -/
theorem not_admitsOnce_before_write :
    ∃ os s, Run System.step System.DatabaseAnswers (bobsSystem {} nothing nothing) os s ∧
      System.queuedIds os = ["k1", "k1"] ∧ s.node.startedIds = ["k1", "k1"] ∧
        s.node.coordinator.keygenRunners "k1@73ee5cd6c20e0c08" = some 1 ∧
          ¬ System.AdmitsOnce os s := by
  obtain ⟨os, s, hrun, hend⟩ := Run.ofGuardedTest System.step
    System.DatabaseAnswers (bobsSystem {} nothing nothing)
    (callKeygen "k1" :: completeCall ++ callKeygen "k1" :: completeCall ++
      [.server (.join true), .forward, .forward, .node (.mail allWell), .node (.mail allWell)])
    (fun r => decide (System.queuedIds r.2 = ["k1", "k1"] ∧
      r.1.node.startedIds = ["k1", "k1"] ∧
        r.1.node.coordinator.keygenRunners "k1@73ee5cd6c20e0c08" = some 1))
    (by decide +kernel)
  obtain ⟨hqueued, hstarted, hroom⟩ := of_decide_eq_true hend
  refine ⟨os, s, hrun, hqueued, hstarted, hroom, fun h => ?_⟩
  have honce := h.queued
  rw [hqueued] at honce
  simp at honce

end Sample

end MpcServer

import MpcServer.Lib.Restart
import MpcServer.Progress
import MpcServer.Attendance
import MpcServer.Outcomes

/-!
# Restarts

A server that stops loses its queues, its coordinator and every session. What
it finds when it starts again are its two trees: the shares and groups, and the
results. Whatever the one holds can be used again; what the other holds is
never changed again, so that a request which was under way stays so for good.
-/

namespace MpcServer

open Rust Machine

variable {C : Crates}

namespace Node

/-! ## An id nobody asks for -/

/-- No request with the id waits, and no runner was started for one. -/
structure Ignores (x : String) (n : Node C) : Prop where
  requests : ∀ req ∈ n.requests, req.requestId ≠ x
  keygen : ∀ i ∈ n.identitiesKG, i.input.requestId ≠ x
  offline : ∀ i ∈ n.identitiesO, i.input.inner.requestId ≠ x
  signers : ∀ i ∈ n.identitiesS, i.input.inner.requestId ≠ x

theorem Ignores.init (x : String) (sk : C.SecretKey) (db : Tree C) : Ignores x (init sk db) where
  requests _ h := by cases h
  keygen _ h := by cases h
  offline _ h := by cases h
  signers _ h := by cases h

section
variable {x : String} {os o : List (Obs C)} {n t : Node C} {e : Event}

/-- Then no mail that waits concerns it. -/
theorem Ignores.concerns (h : Ignores x n) (hq : Genuine os n) {m : Mail C} (hm : m ∈ n.mailbox) :
    concerns x m = false := by
  have hfrom := hq.waiting m hm
  cases m with
  | request req => simpa [Node.concerns] using h.requests req (mem_requests_iff.mpr hm)
  | outputKG a out =>
      obtain ⟨i, hi, hinput⟩ := hfrom
      simpa [Node.concerns, hinput] using h.keygen i (List.mem_of_getElem? hi)
  | outputO a out =>
      obtain ⟨i, hi, hinput⟩ := hfrom
      simpa [Node.concerns, hinput] using h.offline i (List.mem_of_getElem? hi)
  | outputS a out =>
      obtain ⟨i, hi, hinput⟩ := hfrom
      simpa [Node.concerns, hinput] using h.signers i (List.mem_of_getElem? hi)
  | outgoing _ => rfl
  | errorKG _ => rfl
  | errorO _ => rfl

theorem mem_startedKG {i : MpcPlayer.Identity KeygenRequest} (h : i ∈ o.filterMap startedKG) :
    ∃ a p, .effect (.startKG a p) ∈ o ∧ i = p.identity := by
  obtain ⟨y, hy, heq⟩ := List.mem_filterMap.mp h
  cases y with
  | effect e =>
      cases e <;> cases heq
      exact ⟨_, _, hy, rfl⟩
  | _ => cases heq

theorem mem_startedO {i : MpcPlayer.Identity EnrichedSignRequest}
    (h : i ∈ o.filterMap startedO) : ∃ a p, .effect (.startO a p) ∈ o ∧ i = p.identity := by
  obtain ⟨y, hy, heq⟩ := List.mem_filterMap.mp h
  cases y with
  | effect e =>
      cases e <;> cases heq
      exact ⟨_, _, hy, rfl⟩
  | _ => cases heq

theorem mem_startedS {i : Signer.Identity C} (h : i ∈ o.filterMap startedS) :
    ∃ a s, .effect (.startS a s) ∈ o ∧ i = s.identity := by
  obtain ⟨y, hy, heq⟩ := List.mem_filterMap.mp h
  cases y with
  | effect e =>
      cases e <;> cases heq
      exact ⟨_, _, hy, rfl⟩
  | _ => cases heq

/-- As long as no request with the id comes in, the node ignores it. -/
theorem Ignores.step (h : Ignores x n) (hq : Genuine os n) (hs : Steps n e t o)
    (he : ∀ req, e = .request req → req.requestId ≠ x) : Ignores x t := by
  have hconcerns (m : Mail C) (hm : .handled m ∈ o) : Node.concerns x m = false :=
    h.concerns hq (mem_mailbox_of_handled hs hm)
  have hgrows := hs.grows
  refine ⟨fun req hreq => ?_, fun i hi => ?_, fun i hi => ?_, fun i hi => ?_⟩
  · exact (hs.mem_requests req hreq).elim (h.requests req) (he req)
  · rw [hgrows.keygen] at hi
    rcases List.mem_append.mp hi with hi | hi
    · exact h.keygen i hi
    · obtain ⟨a, p, hstart, rfl⟩ := mem_startedKG hi
      show p.input.requestId ≠ x
      exact of_decide_eq_false (hconcerns _ (hs.keygen_of_start hstart).1)
  · rw [hgrows.offline] at hi
    rcases List.mem_append.mp hi with hi | hi
    · exact h.offline i hi
    · obtain ⟨a, p, hstart, rfl⟩ := mem_startedO hi
      show p.input.inner.requestId ≠ x
      exact of_decide_eq_false (hconcerns _ (hs.offline_of_start hstart).1)
  · rw [hgrows.signers] at hi
    rcases List.mem_append.mp hi with hi | hi
    · exact h.signers i hi
    · obtain ⟨a, s, hstart, rfl⟩ := mem_startedS hi
      obtain ⟨b, out, message, hout, -, rfl⟩ := hs.signer_of_start hstart
      show out.input.inner.requestId ≠ x
      exact of_decide_eq_false (hconcerns _ hout)

/-- And reports nothing for it. -/
theorem Ignores.reports (h : Ignores x n) (hq : Genuine os n) (hs : Steps n e t o)
    {r : CheckResultResponse} (hr : .effect (.status r) ∈ o) : r.requestId ≠ x := by
  obtain ⟨ctx, m, _, _, es, hh, hm, hes⟩ := hs.mail_of_effect hr id
  have hmem : r ∈ Node.reports es :=
    List.mem_filterMap.mpr ⟨.effect (.status r), List.mem_map_of_mem hes, rfl⟩
  have hown : Node.concerns r.requestId m = true := by
    cases hh.spends with
    | silently hnone _ =>
        rw [hnone] at hmem
        cases hmem
    | onwards hone _ hown _ =>
        rw [hone] at hmem
        exact List.mem_singleton.mp hmem ▸ hown
    | lastly hone _ hown _ =>
        rw [hone] at hmem
        exact List.mem_singleton.mp hmem ▸ hown
  rintro rfl
  rw [h.concerns hq (mem_mailbox_of_handled hs hm)] at hown
  cases hown

end

/-- What is retrieved was looked up. -/
theorem getOk_of_retrieved {db : Tree C} {sk : C.SecretKey} {amb : Ambient} {publicKey : String}
    {share : StoredLocalShare C} (h : retrieveShare db sk amb publicKey = .ok share) :
    amb.getOk = true := by
  obtain ⟨stored, hstored, -⟩ := bind_eq_ok.mp h
  unfold Tree.get at hstored
  split at hstored
  · assumption
  · cases hstored

end Node

namespace System

/-- A start on what sled finds of the two trees. Everything else is gone: the queues,
the coordinator's runners, what they were sent and what they have computed. -/
def again (recover : Tree C → Tree C) (s : System C) : System C :=
  init s.node.coordinator.sk (recover s.node.coordinator.db) (recover s.server.resultsDb)

/-- What was written to a tree is found again. sled writes to the disk in the
background and the server never flushes, so that a crash may well break this. -/
def Durable (recover : Tree C → Tree C) : Prop :=
  ∀ db, FirstWrite.Keeps db (recover db)

/-- What is found again was in the tree, of which a part may be lost. -/
def Truthful (recover : Tree C → Tree C) : Prop :=
  ∀ db, FirstWrite.Keeps (recover db) db

/-- The lookups in the database of results succeed. -/
def LooksUp (_ : System C) : Event → Prop
  | .server (.call _ ok) | .server (.checkResult _ ok) => ok = true
  | _ => True

instance (s : System C) (e : Event) : Decidable (s.LooksUp e) :=
  match e with
  | .server (.call _ ok) | .server (.checkResult _ ok) => inferInstanceAs (Decidable (ok = true))
  | .server (.announce _) | .server (.queue _) | .server (.handleResponse _) | .server (.join _)
  | .forward | .node _ => .isTrue trivial

/-! ## A request that is on record -/

/-- What `check_result` makes of a record. -/
def onRecord (b : C.Blob) : Except Status CheckResultResponse :=
  match C.checkResultResponse.read b with
  | some r => .ok r
  | none => .error .notFound

/-- For the id `x`, which has the record `b`: a call is refused, a client that asks gets the
record, nothing is queued or taken up, and no status is sent. -/
def Frozen (x : String) (b : C.Blob) : Obs C → Prop
  | .server (.called req refusal) => req.requestId = x → refusal = some (.alreadyExists x)
  | .server (.checked requestId answer) => requestId = x → answer = onRecord b
  | .server (.sent r) | .node (.effect (.status r)) => r.requestId ≠ x
  | .server (.returned req _) | .node (.handled (.request req)) => req.requestId ≠ x
  | _ => True

/-- There is a record for the id, and nothing is under way that could change it. -/
structure Closed (x : String) (b : C.Blob) (s : System C) : Prop where
  record : s.server.resultsDb x = some b
  writer : ∀ r ∈ s.server.rxRes, r.requestId ≠ x
  calls : ∀ c ∈ s.server.calls, c.request.requestId ≠ x
  queue : ∀ req ∈ s.server.rx, req.requestId ≠ x
  genuine : ∃ os, Node.Genuine os s.node
  node : s.node.Ignores x

section
variable {x : String} {b : C.Blob} {s t : System C} {e : Event} {o : List (Obs C)}
  {recover : Tree C → Tree C}

/-- A start finds nothing under way. -/
theorem closed_again (hdurable : Durable recover) (hx : s.server.resultsDb x = some b) :
    Closed x b (s.again recover) where
  record := hdurable _ x b hx
  writer _ h := by cases h
  calls _ h := by cases h
  queue _ h := by cases h
  genuine := ⟨[], .init _ _⟩
  node := .init x _ _

/-- The writer leaves the records of other ids alone. -/
theorem saveResult_getD_apply (db : Tree C) (insertOk : Bool) {response : CheckResultResponse}
    (h : response.requestId ≠ x) :
    (Server.saveResult db insertOk response).getD db x = db x := by
  cases hsave : Server.saveResult db insertOk response with
  | none => rfl
  | some db' =>
      obtain ⟨value, -, hvalue⟩ := Option.bind_eq_some_iff.mp hsave
      cases insertOk <;> cases hvalue
      exact Function.update_of_ne h.symm _ _

theorem checkResult_of_record (hx : s.server.resultsDb x = some b) :
    s.server.checkResult true x = onRecord b := by
  cases hread : C.checkResultResponse.read b <;>
    simp [Server.checkResult, onRecord, hx, hread]

theorem Closed.server (h : Closed x b s) {e : Server.Event} {u : Server C} {o : List Server.Obs}
    (hg : s.LooksUp (.server e)) (hs : Server.Steps s.server e u o) :
    Closed x b { s with server := u } ∧ ∀ y ∈ o, Frozen x b (.server y) := by
  cases hs with
  | @refused req getOk status hrefusal =>
      obtain rfl : getOk = true := hg
      refine ⟨h, fun y hy => ?_⟩
      cases List.mem_singleton.mp hy
      rintro rfl
      have hsome : s.server.resultsDb req.requestId ≠ none := by simp [h.record]
      rw [← hrefusal, Server.refusal_of_record hsome]
  | @admitted req getOk hrefusal =>
      obtain rfl : getOk = true := hg
      have hne : req.requestId ≠ x := by
        rintro rfl
        have hnone := Server.no_record_of_admitted hrefusal
        rw [h.record] at hnone
        cases hnone
      refine ⟨{ h with calls := fun c hc => ?_ }, fun y hy => ?_⟩
      · rcases List.mem_append.mp hc with hc | hc
        · exact h.calls c hc
        · exact List.mem_singleton.mp hc ▸ hne
      · cases List.mem_singleton.mp hy
        exact fun heq => absurd heq hne
  | @announced i req hget =>
      have hne : (received req).requestId ≠ x := by
        rw [received_requestId]
        exact h.calls _ (List.mem_of_getElem? hget)
      refine ⟨{ h with writer := fun r hr => ?_, calls := fun c hc => ?_ }, fun y hy => ?_⟩
      · rcases List.mem_append.mp hr with hr | hr
        · exact h.writer r hr
        · exact List.mem_singleton.mp hr ▸ hne
      · rcases List.mem_or_eq_of_mem_set hc with hc | rfl
        · exact h.calls c hc
        · exact h.calls ⟨req, false⟩ (List.mem_of_getElem? hget)
      · cases List.mem_singleton.mp hy
        exact hne
  | @queued i req hget _ =>
      have hne : req.requestId ≠ x := h.calls _ (List.mem_of_getElem? hget)
      refine ⟨{ h with
        calls := fun c hc => h.calls c (List.mem_of_mem_eraseIdx hc)
        queue := fun r hr => ?_ }, fun y hy => ?_⟩
      · rcases List.mem_append.mp hr with hr | hr
        · exact h.queue r hr
        · exact List.mem_singleton.mp hr ▸ hne
      · cases List.mem_singleton.mp hy
        exact hne
  | @lost i req hget _ =>
      have hne : req.requestId ≠ x := h.calls _ (List.mem_of_getElem? hget)
      refine ⟨{ h with calls := fun c hc => h.calls c (List.mem_of_mem_eraseIdx hc) },
        fun y hy => ?_⟩
      cases List.mem_singleton.mp hy
      exact hne
  | @checked requestId getOk =>
      obtain rfl : getOk = true := hg
      refine ⟨h, fun y hy => ?_⟩
      cases List.mem_singleton.mp hy
      rintro rfl
      exact checkResult_of_record h.record
  | @saved insertOk response rest hrx =>
      have hne : response.requestId ≠ x := h.writer _ (hrx ▸ List.mem_cons_self)
      refine ⟨{ h with
        record := ?_
        writer := fun r hr => h.writer r (hrx ▸ List.mem_cons_of_mem _ hr) }, fun y hy => ?_⟩
      · show (Server.saveResult _ _ _).getD _ x = some b
        rw [saveResult_getD_apply _ _ hne, h.record]
      · cases hy
  | joined _ => exact ⟨{ h with }, fun y hy => by cases hy⟩
  | left _ => exact ⟨{ h with queue := fun _ hr => by cases hr }, fun y hy => by cases hy⟩

/-- A step of the node says nothing for the id, and takes nothing up for it. -/
theorem Closed.frozen_node (h : Closed x b s) {e : MpcServer.Event} {n : Node C}
    {o : List (MpcServer.Obs C)} (hs : Node.Steps s.node e n o) :
    ∀ y ∈ o, Frozen x b (.node y) := by
  obtain ⟨os, hq⟩ := h.genuine
  intro y hy
  cases y with
  | handled m =>
      cases m with
      | request req =>
          have hconcerns := h.node.concerns hq (Node.mem_mailbox_of_handled hs hy)
          exact of_decide_eq_false hconcerns
      | _ => trivial
  | effect f =>
      cases f with
      | status r => exact h.node.reports hq hs hy
      | _ => trivial
  | _ => trivial

theorem Closed.step (h : Closed x b s) (hg : s.LooksUp e) (hs : Steps s e t o) :
    Closed x b t ∧ ∀ y ∈ o, Frozen x b y := by
  cases hs with
  | server hs =>
      obtain ⟨hclosed, ho⟩ := h.server hg hs
      refine ⟨hclosed, fun y hy => ?_⟩
      obtain ⟨z, hz, rfl⟩ := List.mem_map.mp hy
      exact ho z hz
  | @forward req rest n o _ hrx hs =>
      obtain ⟨os, hq⟩ := h.genuine
      have hne : req.requestId ≠ x := h.queue req (hrx ▸ List.mem_cons_self)
      refine ⟨{
        record := h.record
        writer := h.writer
        calls := h.calls
        queue := fun r hr => h.queue r (hrx ▸ List.mem_cons_of_mem _ hr)
        genuine := ⟨os ++ o, hq.step hs⟩
        node := h.node.step hq hs fun _ heq => Event.request.inj heq ▸ hne }, fun y hy => ?_⟩
      obtain ⟨z, hz, rfl⟩ := List.mem_map.mp hy
      exact h.frozen_node hs z hz
  | @node e n o _ hnot hs =>
      obtain ⟨os, hq⟩ := h.genuine
      refine ⟨{
        record := h.record
        writer := fun r hr => ?_
        calls := h.calls
        queue := h.queue
        genuine := ⟨os ++ o, hq.step hs⟩
        node := h.node.step hq hs fun req heq => by simp [heq, isRequest] at hnot },
        fun y hy => ?_⟩
      · rcases List.mem_append.mp hr with hr | hr
        · exact h.writer r hr
        · obtain ⟨z, hz, heq⟩ := List.mem_filterMap.mp hr
          cases z with
          | effect f =>
              cases f <;> cases heq
              exact h.node.reports hq hs hz
          | _ => cases heq
      · obtain ⟨z, hz, rfl⟩ := List.mem_map.mp hy
        exact h.frozen_node hs z hz

/-- **A request that was under way when the server stopped stays as it was.**
As long as nothing written is lost and every lookup succeeds, whatever the record
of an id says at a stop, it says the same in every run from the next start, across
any further ones: the id is refused to every call, no status is sent for it, and
whoever asks gets the record of before the stop. -/
theorem frozen_of_record {os : List (Obs C)} (hdurable : Durable recover)
    (hx : s.server.resultsDb x = some b)
    (hrun : Run (restarting System.step (again recover)) (untilStop LooksUp) (s.again recover)
      os t) :
    t.server.resultsDb x = some b ∧ ∀ y ∈ os, Frozen x b y := by
  have hinv : Closed x b t ∧ ∀ y ∈ os, Frozen x b y := by
    refine hrun.across (fun os t => Closed x b t ∧ ∀ y ∈ os, Frozen x b y)
      ⟨closed_again hdurable hx, fun y hy => by cases hy⟩
      (fun h => ⟨closed_again hdurable h.1.record, h.2⟩) fun h hg hs => ?_
    obtain ⟨hclosed, ho⟩ := h.1.step hg (step_cases hs)
    exact ⟨hclosed, fun y hy => (List.mem_append.mp hy).elim (h.2 y) (ho y)⟩
  exact ⟨hinv.1.record, hinv.2⟩

end

/-! ## A key that was generated -/

/-- Where the output of a keygen player is taken up, its share is saved. -/
def SavesShares (s : System C) : Event → Prop
  | .node e => s.node.SavesShares e
  | _ => True

instance (s : System C) (e : Event) : Decidable (s.SavesShares e) :=
  match e with
  | .node e => inferInstanceAs (Decidable (s.node.SavesShares e))
  | .server _ | .forward => .isTrue trivial

/-- Every keygen that was ever reported done has its share in the tree, under the
key the server is started with. -/
structure HasKeys (sk : C.SecretKey) (os : List (Obs C)) (s : System C) : Prop where
  stored : s.node.DoneAreStored (os.filterMap nodeObs)
  key : s.node.coordinator.sk = sk
  pkStr : s.node.coordinator.pkStr = C.ownKey sk

section
variable {sk : C.SecretKey} {os o : List (Obs C)} {s t : System C} {e : Event}

theorem mem_of_nodeObs {y : MpcServer.Obs C} (h : y ∈ os.filterMap nodeObs) : .node y ∈ os := by
  obtain ⟨x, hx, heq⟩ := List.mem_filterMap.mp h
  cases x <;> cases heq
  exact hx

theorem Steps.node_of_mem (hs : Steps s e t o) {y : MpcServer.Obs C} (h : .node y ∈ o) :
    ∃ e' n o', Node.Steps s.node e' n o' ∧ y ∈ o' := by
  cases hs with
  | server _ =>
      obtain ⟨_, -, heq⟩ := List.mem_map.mp h
      cases heq
  | forward _ _ hs =>
      obtain ⟨_, hy, heq⟩ := List.mem_map.mp h
      cases heq
      exact ⟨_, _, _, hs, hy⟩
  | node _ _ hs =>
      obtain ⟨_, hy, heq⟩ := List.mem_map.mp h
      cases heq
      exact ⟨_, _, _, hs, hy⟩

theorem HasKeys.again {recover : Tree C → Tree C} (hdurable : Durable recover)
    (h : HasKeys sk os s) : HasKeys sk os (s.again recover) where
  stored r hr hdone := by
    obtain ⟨a, out, hout, heq, hret⟩ := h.stored r hr hdone
    refine ⟨a, out, hout, heq, hret.continues ⟨?_, rfl, hdurable _⟩⟩
    show C.ownKey s.node.coordinator.sk = s.node.coordinator.pkStr
    rw [h.pkStr, h.key]
  key := h.key
  pkStr := congrArg C.ownKey h.key

theorem HasKeys.node (laws : StorageLaws C) (h : HasKeys sk os s) {e : MpcServer.Event}
    {n : Node C} {o : List (MpcServer.Obs C)} (hg : s.node.SavesShares e)
    (hs : Node.Steps s.node e n o) (u : Server C) :
    HasKeys sk (os ++ o.map .node) { server := u, node := n } where
  stored := by
    rw [List.filterMap_append, filterMap_nodeObs_node]
    exact h.stored.step laws (h.pkStr.trans (congrArg C.ownKey h.key.symm)) hg hs
  key := hs.continues.sk.trans h.key
  pkStr := hs.continues.pkStr.trans h.pkStr

theorem HasKeys.step (laws : StorageLaws C) (h : HasKeys sk os s) (hg : s.SavesShares e)
    (hs : Steps s e t o) : HasKeys sk (os ++ o) t := by
  cases hs with
  | server _ =>
      refine { h with stored := ?_ }
      rw [List.filterMap_append, filterMap_nodeObs_server, List.append_nil]
      exact h.stored
  | forward _ _ hs => exact h.node laws (by simp only [Node.SavesShares]) hs _
  | node _ _ hs => exact h.node laws hg hs _

/-- **A key outlives the server that generated it.** In a run with any number of
stops in which every share is saved and nothing saved is lost, a keygen that is
reported done comes from the output of a player, and from then on, in whatever
life, an offline stage for the key it reported is started on the share of that
output. -/
theorem offlineStage_of_keygenDone (laws : StorageLaws C) {recover : Tree C → Tree C}
    (hdurable : Durable recover) {shares results : Tree C}
    (hrun : Run (restarting System.step (System.again recover)) (untilStop SavesShares)
      (init sk shares results) os s) {r : CheckResultResponse}
    (hr : .node (.effect (.status r)) ∈ os) (htype : r.requestType = .keygen)
    (hdone : r.requestStatus = .done) :
    ∃ a out, .node (.handled (.outputKG a out)) ∈ os ∧ r = Coordinator.keygenDone out ∧
      ∀ {e t o b p}, s.step e = some (t, o) → .node (.effect (.startO b p)) ∈ o →
        p.input.inner.publicKey = r.result →
          C.offlineStageNew p.input.i p.input.sL out.output = some p.state := by
  have hkeys : HasKeys sk os s :=
    hrun.across (HasKeys sk) ⟨(fun r hr => by cases hr), rfl, rfl⟩ (.again hdurable)
      fun h hg hs => h.step laws hg (step_cases hs)
  obtain ⟨a, out, hout, heq, hret⟩ :=
    hkeys.stored r (List.mem_filterMap.mpr ⟨_, hr, rfl⟩) ⟨htype, hdone⟩
  refine ⟨a, out, mem_of_nodeObs hout, heq, fun hs hstart hkey => ?_⟩
  obtain ⟨_, _, _, hnode, hmem⟩ := (step_cases hs).node_of_mem hstart
  obtain ⟨-, -, amb, share, hshare, hnew⟩ := hnode.offline_of_start hmem
  have hsame := hret amb (Node.getOk_of_retrieved hshare)
  rw [hkey, heq] at hshare
  cases hshare.symm.trans hsame
  exact hnew

end

end System

namespace Sample

/-- The keygen is taken up, and recorded as such. -/
def beforeStop : List System.Event :=
  callKeygen "k1" :: completeCall ++ [.server (.handleResponse true), .server (.join true),
    .forward, .node (.mail allWell), .server (.handleResponse true)]

/-- The client asks and calls again, and asks once more after another stop. -/
def afterStop : List (Option System.Event) :=
  [some (.server (.checkResult "k1" true)), some (callKeygen "k1"), some (.server (.join true)),
    none, some (.server (.checkResult "k1" true))]

/-- The record of a keygen that is under way. -/
def underWay : CheckResultResponse :=
  { requestId := "k1", result := "", requestType := .keygen, requestStatus := .processing }

/-- The tree has this record. -/
def records (db : String → Option Blob) (r : CheckResultResponse) : Bool :=
  match db r.requestId with
  | some (.result r') => r' = r
  | _ => false

theorem record_of_records {db : String → Option Blob} {r : CheckResultResponse}
    (h : records db r = true) : db r.requestId = some (.result r) := by
  unfold records at h
  split at h
  · rename_i hentry
    rw [hentry, of_decide_eq_true h]
  · cases h

theorem frozen_of_underWay :
    ∃ os₀ s os t, Run System.step anyStep (bobsSystem keygen nothing nothing) os₀ s ∧
      s.server.resultsDb "k1" = some (Blob.result underWay) ∧
      Run (restarting System.step (System.again id)) (untilStop System.LooksUp) (s.again id) os t ∧
      t.server.resultsDb "k1" = some (Blob.result underWay) ∧
        ∀ y ∈ os, System.Frozen "k1" (Blob.result underWay) y := by
  obtain ⟨os₀, s, hbefore, hend⟩ := Run.ofTest System.step anyStep
    (bobsSystem keygen nothing nothing) beforeStop
    (fun r => records r.1.server.resultsDb underWay &&
      (exec (guarded (restarting System.step (System.again id)) (untilStop System.LooksUp))
        (r.1.again id) afterStop).isSome)
    (by decide +kernel) (admits_anyStep _ _)
  obtain ⟨hrecord, hafter⟩ := Bool.and_eq_true_iff.mp hend
  obtain ⟨⟨t, os⟩, hexec⟩ := Option.isSome_iff_exists.mp hafter
  have hrun := (Run.ofExec hexec (admits_anyStep _ _)).of_guarded
  exact ⟨os₀, s, os, t, hbefore, record_of_records hrecord, hrun,
    System.frozen_of_record (fun _ => .refl _) (record_of_records hrecord) hrun⟩

/-- A keygen to its end, a stop, and a call of `sign` for its key. -/
def keyReused : List (Option System.Event) :=
  (beforeStop ++ (runKeygen.tail.tail ++ [Event.mail allWell]).map System.Event.node).map some ++
    none :: ([.server (.call (.sign (signOf "s1" [.alice, .bob] "ff")) true)] ++ completeCall ++
      [.server (.join true), .forward] : List System.Event).map some

theorem offlineStage_of_finishedKeygen :
    ∃ os s, Run (restarting System.step (System.again id)) (untilStop System.SavesShares)
        (bobsSystem keygen nothing nothing) os s ∧
      .node (.effect (.status finishedKeygen)) ∈ os ∧
      ∃ a out, .node (.handled (.outputKG a out)) ∈ os ∧
        finishedKeygen = Coordinator.keygenDone out ∧
        ∀ {e t o b p}, s.step e = some (t, o) → .node (.effect (.startO b p)) ∈ o →
          p.input.inner.publicKey = finishedKeygen.result →
            (crates keygen).offlineStageNew p.input.i p.input.sL out.output = some p.state := by
  obtain ⟨os, s, hrun, hend⟩ := Run.ofGuardedTest (restarting System.step (System.again id))
    (untilStop System.SavesShares) (bobsSystem keygen nothing nothing) keyReused
    (fun r => reports finishedKeygen (r.2.filterMap System.nodeObs) &&
      (r.1.step (.node (.mail allWell))).any fun r' =>
        !((r'.2.filterMap System.nodeObs).filterMap Node.startedO).isEmpty)
    (by decide +kernel)
  obtain ⟨hreports, -⟩ := Bool.and_eq_true_iff.mp hend
  have hmem := System.mem_of_nodeObs (mem_of_reports hreports)
  exact ⟨os, s, hrun, hmem,
    System.offlineStage_of_keygenDone (storageLaws keygen) (fun _ => .refl _) hrun hmem rfl rfl⟩

end Sample

end MpcServer

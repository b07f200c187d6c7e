import MpcServer.Attendance
import MpcServer.Silence

/-!
# From the call to the coordinator

A request that was answered `Ok` goes through two queues, that of the bootstrap
task and the coordinator's mailbox, before the coordinator takes it up. Nothing
overtakes on the way, nothing comes through twice, and nothing is lost while
the broker can be joined and the coordinator is up.
-/

namespace MpcServer

open Machine

variable {C : Crates}

namespace Node

section
variable {n t : Node C} {e : Event} {o : List (Obs C)}

/-- The requests a step takes up, in their order. -/
def takenRequests (o : List (Obs C)) : List Request := (o.filterMap taken).filterMap requestOf

/-- The request that comes in at the event, as long as somebody takes it. -/
def cameIn (n : Node C) : Event → List Request
  | .request req => if n.alive then [req] else []
  | _ => []

theorem cameIn_of_inside (h : System.isRequest e = false) : n.cameIn e = [] := by
  cases e <;> first | rfl | cases h

/-- The mailbox is a queue of requests: what comes in goes to its end, what is
taken up stood at its head. -/
theorem Steps.requests_queue (hs : Steps n e t o) :
    n.requests ++ n.cameIn e = takenRequests o ++ t.requests := by
  cases e with
  | request req =>
      obtain ⟨rfl, ⟨hdown, rfl⟩ | ⟨hup, rfl⟩⟩ := hs.request
      · simp [takenRequests, cameIn, hdown]
      · simp [takenRequests, cameIn, hup, requests, requestOf]
  | _ =>
      obtain ⟨kept, added, hbox, hbox', hadds⟩ := hs.mailbox
      have hadded : added.filterMap requestOf = [] := by
        rcases hadds with hadds | ⟨req, heq, -⟩
        · exact List.filterMap_eq_nil_iff.mpr hadds
        · cases heq
      simp only [requests, takenRequests, cameIn, hbox, hbox', List.filterMap_append, hadded,
        List.append_nil]

end

end Node

namespace System

/-- The request of a call that is answered `Ok`. -/
def answered : Obs C → Option Request
  | .server (.returned req (.ok _)) => some req
  | _ => none

/-- The requests that were answered `Ok`, in the order of the answers. -/
def answeredRequests (os : List (Obs C)) : List Request := os.filterMap answered

/-- The requests that the coordinator took up, in their order. -/
def takenRequests (os : List (Obs C)) : List Request := Node.takenRequests (os.filterMap nodeObs)

/-- Where the requests are that were answered: taken up, in the mailbox, gone,
or in the queue. They are gone when the broker could not be joined or the
coordinator was down. -/
structure HandedOver (os : List (Obs C)) (s : System C) (lost : List Request) : Prop where
  order : answeredRequests os = takenRequests os ++ (s.node.requests ++ (lost ++ s.server.rx))
  kept : s.node.alive = true → s.server.bootstrap ≠ .gone → lost = []

section
variable {os o : List (Obs C)} {s t : System C} {e : Event} {lost : List Request}

theorem answeredRequests_append (os o : List (Obs C)) :
    answeredRequests (os ++ o) = answeredRequests os ++ answeredRequests o :=
  List.filterMap_append

theorem takenRequests_append (os o : List (Obs C)) :
    takenRequests (os ++ o) = takenRequests os ++ takenRequests o := by
  simp only [takenRequests, Node.takenRequests, List.filterMap_append]

theorem takenRequests_server (o : List Server.Obs) :
    takenRequests (o.map (Obs.server (C := C))) = [] := by
  rw [takenRequests, filterMap_nodeObs_server]
  rfl

theorem takenRequests_node (o : List (MpcServer.Obs C)) :
    takenRequests (o.map Obs.node) = Node.takenRequests o := by
  rw [takenRequests, filterMap_nodeObs_node]

theorem answeredRequests_node (o : List (MpcServer.Obs C)) :
    answeredRequests (o.map Obs.node) = [] := by
  refine List.filterMap_eq_nil_iff.mpr fun y hy => ?_
  obtain ⟨z, -, rfl⟩ := List.mem_map.mp hy
  rfl

/-- A step of the server puts what it answers at the end of the queue, or all that is in
the queue is gone. -/
theorem HandedOver.server (h : HandedOver os s lost) {e : Server.Event} {u : Server C}
    {o : List Server.Obs} (hs : Server.Steps s.server e u o) :
    ∃ lost', HandedOver (os ++ o.map Obs.server) { s with server := u } lost' := by
  have hstill (ho : answeredRequests (o.map (Obs.server (C := C))) = [])
      (hrx : u.rx = s.server.rx) (hgone : u.bootstrap ≠ .gone → s.server.bootstrap ≠ .gone) :
      HandedOver (os ++ o.map Obs.server) { s with server := u } lost := by
    refine ⟨?_, fun hup hjoined => h.kept hup (hgone hjoined)⟩
    rw [answeredRequests_append, takenRequests_append, takenRequests_server, ho, hrx,
      List.append_nil, List.append_nil, h.order]
  cases hs with
  | refused _ => exact ⟨lost, hstill rfl rfl id⟩
  | admitted _ => exact ⟨lost, hstill rfl rfl id⟩
  | announced _ => exact ⟨lost, hstill rfl rfl id⟩
  | @queued i req _ _ =>
      refine ⟨lost, ?_, h.kept⟩
      have ho : answeredRequests (([.returned req (.ok req.requestId)] : List Server.Obs).map
          (Obs.server (C := C))) = [req] := rfl
      rw [answeredRequests_append, takenRequests_append, takenRequests_server, ho,
        List.append_nil, h.order]
      simp only [List.append_assoc]
  | lost _ _ => exact ⟨lost, hstill rfl rfl id⟩
  | checked => exact ⟨lost, hstill rfl rfl id⟩
  | saved _ => exact ⟨lost, hstill rfl rfl id⟩
  | joined hjoining =>
      exact ⟨lost, hstill rfl rfl fun _ hgone => by cases hjoining.symm.trans hgone⟩
  | left _ =>
      -- the queue is dropped with its receiver
      refine ⟨lost ++ s.server.rx, ?_, fun _ hjoined => absurd rfl hjoined⟩
      have ho : answeredRequests (([] : List Server.Obs).map (Obs.server (C := C))) = [] := rfl
      rw [answeredRequests_append, takenRequests_append, takenRequests_server, ho,
        List.append_nil, List.append_nil, h.order]
      simp only [List.append_nil]

theorem HandedOver.step (h : HandedOver os s lost) (hs : Steps s e t o) :
    ∃ lost', HandedOver (os ++ o) t lost' := by
  cases hs with
  | server hs => exact h.server hs
  | @forward req rest n o hserving hrx hn =>
      have hjoined : s.server.bootstrap ≠ .gone := fun hgone => by cases hserving.symm.trans hgone
      have hqueue := hn.requests_queue
      have horder := h.order
      obtain ⟨rfl, ⟨hdown, rfl⟩ | ⟨hup, -⟩⟩ := hn.request
      · -- the request is sent to a mailbox that is closed
        refine ⟨lost ++ [req], ?_, fun hup => by simp [hdown] at hup⟩
        rw [List.map_nil, List.append_nil, horder, hrx]
        simp only [List.append_assoc, List.singleton_append]
      · obtain rfl := h.kept hup hjoined
        refine ⟨[], ?_, fun _ _ => rfl⟩
        have hnew : s.node.requests ++ [req] = n.requests := by
          simpa [Node.takenRequests, Node.cameIn, hup] using hqueue
        rw [List.map_nil, List.append_nil, horder, hrx, ← hnew]
        simp only [List.append_assoc, List.singleton_append, List.nil_append]
  | @node e n o hserving hnot hn =>
      refine ⟨lost, ?_, fun hup => h.kept ?_⟩
      · have hqueue := hn.requests_queue
        rw [Node.cameIn_of_inside hnot, List.append_nil] at hqueue
        rw [answeredRequests_append, answeredRequests_node, takenRequests_append,
          takenRequests_node, List.append_nil, h.order, hqueue]
        simp only [List.append_assoc]
        rfl
      · -- a coordinator that is down stays down
        by_contra hdown
        have hdead := (hn.of_dead (Bool.eq_false_iff.mpr hdown)).1
        rw [hdead] at hup
        cases hup

/-- **Requests are taken up in the order of their answers.** In every run the
requests that were answered `Ok` are, in this order, those the coordinator took
up, those in its mailbox, those that are gone, and those in the queue; and none
is gone as long as the broker could be joined and the coordinator is up. -/
theorem handedOver_of_run {guard : System C → Event → Prop} {sk : C.SecretKey}
    {shares results : Tree C} (hrun : Run step guard (init sk shares results) os s) :
    ∃ lost, answeredRequests os =
        takenRequests os ++ (s.node.requests ++ (lost ++ s.server.rx)) ∧
      (s.node.alive = true → s.server.bootstrap ≠ .gone → lost = []) := by
  have h : ∃ lost, HandedOver os s lost :=
    hrun.invariant (fun os s => ∃ lost, HandedOver os s lost) ⟨[], rfl, fun _ _ => rfl⟩
      fun _ ⟨_, h⟩ _ hs => h.step (step_cases hs)
  obtain ⟨lost, h⟩ := h
  exact ⟨lost, h.order, h.kept⟩

end

end System

namespace Sample

/-- A call that is served to its end. -/
def served (requestId : String) : List System.Event :=
  [callKeygen requestId, .server (.announce 0), .server (.queue 0)]

/-- One request is taken up, one waits in the mailbox, and one in the queue. -/
def threeWaiting : List System.Event :=
  served "k1" ++ served "k2" ++ [.server (.join true), .forward, .forward, .node (.mail allWell)] ++
    served "k3"

theorem handedOver_of_threeWaiting :
    ∃ os s, Run System.step anyStep (bobsSystem {} nothing nothing) os s ∧
      (System.answeredRequests os).map Request.requestId = ["k1", "k2", "k3"] ∧
      (System.takenRequests os).map Request.requestId = ["k1"] ∧
      s.node.requests.map Request.requestId = ["k2"] ∧
      ∃ lost, System.answeredRequests os =
          System.takenRequests os ++ (s.node.requests ++ (lost ++ s.server.rx)) ∧
        (s.node.alive = true → s.server.bootstrap ≠ .gone → lost = []) := by
  obtain ⟨os, s, hrun, hend⟩ := Run.ofTest System.step anyStep (bobsSystem {} nothing nothing)
    threeWaiting
    (fun r => decide ((System.answeredRequests r.2).map Request.requestId = ["k1", "k2", "k3"] ∧
      (System.takenRequests r.2).map Request.requestId = ["k1"] ∧
      r.1.node.requests.map Request.requestId = ["k2"]))
    (by decide) (admits_anyStep _ _)
  obtain ⟨hanswered, htaken, hwaiting⟩ := of_decide_eq_true hend
  exact ⟨os, s, hrun, hanswered, htaken, hwaiting, System.handedOver_of_run hrun⟩

end Sample

end MpcServer

import MpcServer.Server
import MpcServer.Actors.Identities

/-!
# The server and its coordinator

The two run side by side. Requests go from the one to the other through a
queue that is served once the broker has been joined; the coordinator's
statuses come back through the other queue, behind those the calls sent.
-/

namespace MpcServer

open Machine

/-- A server and its coordinator. -/
structure System (C : Crates) where
  server : Server C
  node : Node C

namespace System

variable {C : Crates}

/-- A step of the server, a request handed on, or a step of the coordinator. -/
inductive Event
  | server (e : Server.Event)
  | forward
  | node (e : MpcServer.Event)

variable (C) in
/-- What is seen of a step. -/
inductive Obs
  | server (o : Server.Obs)
  | node (o : MpcServer.Obs C)

/-- The server as it is started, with these two trees. -/
def init (sk : C.SecretKey) (shares results : Tree C) : System C :=
  { server := Server.init results, node := Node.init sk shares }

/-- The status a handler of the coordinator sends. -/
def reportOf : MpcServer.Obs C → Option CheckResultResponse
  | .effect (.status r) => some r
  | _ => none

/-- Statuses of the coordinator join the queue of the writer. -/
def report (s : Server C) (rs : List CheckResultResponse) : Server C :=
  { s with rxRes := s.rxRes ++ rs }

/-- Requests reach the coordinator through the queue alone. -/
def isRequest : MpcServer.Event → Bool
  | .request _ => true
  | _ => false

/-- One step of both. -/
def step : Step (System C) Event (Obs C) := fun s e =>
  match e with
  | .server e =>
      (s.server.step e).map fun r => ({ s with server := r.1 }, r.2.map .server)
  | .forward =>
      match s.server.bootstrap, s.server.rx with
      | .serving, req :: rest =>
          (s.node.step (.request req)).map fun r =>
            ({ server := { s.server with rx := rest }, node := r.1 }, r.2.map .node)
      | _, _ => none
  | .node e =>
      if s.server.bootstrap = .serving ∧ isRequest e = false then
        (s.node.step e).map fun r =>
          ({ server := report s.server (r.2.filterMap reportOf), node := r.1 }, r.2.map .node)
      else none

/-- **What a step of the system can do.** -/
inductive Steps (s : System C) : Event → System C → List (Obs C) → Prop
  | server {e t o} : Server.Steps s.server e t o →
      Steps s (.server e) { s with server := t } (o.map .server)
  | forward {req rest n o} : s.server.bootstrap = .serving → s.server.rx = req :: rest →
      Node.Steps s.node (.request req) n o →
      Steps s .forward { server := { s.server with rx := rest }, node := n } (o.map .node)
  | node {e n o} : s.server.bootstrap = .serving → isRequest e = false →
      Node.Steps s.node e n o →
      Steps s (.node e) { server := report s.server (o.filterMap reportOf), node := n }
        (o.map .node)

theorem step_cases {s t : System C} {e : Event} {o : List (Obs C)} (h : s.step e = some (t, o)) :
    Steps s e t o := by
  cases e with
  | server e =>
      simp only [step, Option.map_eq_some_iff] at h
      obtain ⟨r, hr, h⟩ := h
      cases h
      exact .server (Server.step_cases hr)
  | forward =>
      simp only [step] at h
      split at h
      · rename_i hserving hrx
        simp only [Option.map_eq_some_iff] at h
        obtain ⟨r, hr, h⟩ := h
        cases h
        exact .forward hserving hrx (Node.step_cases hr)
      · cases h
  | node e =>
      simp only [step] at h
      split at h
      · rename_i hserving
        simp only [Option.map_eq_some_iff] at h
        obtain ⟨r, hr, h⟩ := h
        cases h
        exact .node hserving.1 hserving.2 (Node.step_cases hr)
      · cases h

/-! ## The coordinator's part -/

/-- What the coordinator has put out. -/
def nodeObs : Obs C → Option (MpcServer.Obs C)
  | .node o => some o
  | .server _ => none

theorem filterMap_nodeObs_server (o : List Server.Obs) :
    (o.map (Obs.server (C := C))).filterMap nodeObs = [] := by
  simp [List.filterMap_map, Function.comp_def, nodeObs]

theorem filterMap_nodeObs_node (o : List (MpcServer.Obs C)) :
    (o.map Obs.node).filterMap nodeObs = o := by
  simp [List.filterMap_map, Function.comp_def, nodeObs]

theorem projects_node {s t : System C} {e : Event} {o : List (Obs C)}
    (h : s.step e = some (t, o)) : Projects Node.step anyStep System.node nodeObs s t o := by
  cases e with
  | server e =>
      obtain ⟨r, -, h⟩ := Option.map_eq_some_iff.mp h
      cases h
      exact .inl ⟨rfl, filterMap_nodeObs_server r.2⟩
  | forward =>
      simp only [step] at h
      split at h
      · obtain ⟨r, hr, h⟩ := Option.map_eq_some_iff.mp h
        cases h
        exact .inr ⟨_, trivial, hr.trans (by rw [filterMap_nodeObs_node])⟩
      · cases h
  | node e =>
      simp only [step] at h
      split at h
      · obtain ⟨r, hr, h⟩ := Option.map_eq_some_iff.mp h
        cases h
        exact .inr ⟨_, trivial, hr.trans (by rw [filterMap_nodeObs_node])⟩
      · cases h

/-- **Every run of the whole is one of its coordinator**: what holds of a node on any
run holds of it here. -/
theorem node_of_run {guard : System C → Event → Prop} {sk : C.SecretKey}
    {shares results : Tree C} {os : List (Obs C)} {s : System C}
    (hrun : Run step guard (init sk shares results) os s) :
    Run Node.step anyStep (Node.init sk shares) (os.filterMap nodeObs) s.node :=
  hrun.project fun _ _ hs => projects_node hs

/-- The coordinator keeps its key to the end, and what its tree once holds. -/
theorem continues_of_run {guard : System C → Event → Prop} {sk : C.SecretKey}
    {shares results : Tree C} {os : List (Obs C)} {s : System C}
    (hrun : Run step guard (init sk shares results) os s) :
    Node.Continues (Node.init sk shares).coordinator s.node.coordinator :=
  Node.continues_of_run (node_of_run hrun)

end System

end MpcServer

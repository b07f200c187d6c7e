import MpcServer.Lib.Machine
import MpcServer.Storage

/-!
# The gRPC server

What a client calls, the database of results, and the two tasks around them.
A call of `keygen` or `sign` looks its id up, announces the request, queues it
and answers: three steps, and between them those of any other call and of the
task that writes the results.
-/

namespace MpcServer

open Machine

/-- `tonic::Code`, as far as the server uses it. -/
inductive Code
  | invalidArgument
  | notFound
  | alreadyExists
  | internal
  deriving DecidableEq, Repr

/-- `tonic::Status`. -/
structure Status where
  code : Code
  message : String
  deriving DecidableEq, Repr

namespace Status

/-- The answer to a call whose id has a record. -/
def alreadyExists (requestId : String) : Status :=
  { code := .alreadyExists, message := "A request of id \"" ++ requestId ++ "\" already exists." }

/-- The answer to a call whose hash is none. -/
def invalidHash : Status :=
  { code := .invalidArgument, message := "Supplied hash is not a valid hash." }

/-- The answer to a call when the queue is gone. -/
def notQueued : Status := { code := .internal, message := "Failed to queue the request." }

/-- The answer about an id without a record. -/
def notFound : Status := { code := .notFound, message := "Not found" }

end Status

/-- The status a request is announced with. -/
def received : Request → CheckResultResponse
  | .keygen req =>
      { requestId := req.requestId, result := "", requestType := .keygen,
        requestStatus := .received }
  | .sign req =>
      { requestId := req.requestId, result := "", requestType := .sign,
        requestStatus := .received }

@[simp] theorem received_requestId (req : Request) :
    (received req).requestId = req.requestId := by
  cases req <;> rfl

/-- A call of `keygen` or `sign` past its checks; `announced` says whether it
has sent the status. -/
structure PendingCall where
  request : Request
  announced : Bool
  deriving DecidableEq, Repr

/-- The task that takes the requests from their queue: while it joins the
broker, once it has, and when it could not and dropped the queue. -/
inductive Bootstrap
  | joining
  | serving
  | gone
  deriving DecidableEq, Repr

/-- `rx` and `rxRes` are what waits in the two channels. -/
structure Server (C : Crates) where
  resultsDb : Tree C
  rx : List Request
  rxRes : List CheckResultResponse
  calls : List PendingCall
  bootstrap : Bootstrap

namespace Server

variable {C : Crates}

/-- What happens next: `call` is the start of a `keygen` or `sign` call up to
its checks, `announce` and `queue` are the two sends of the `i`-th call. -/
inductive Event
  | call (req : Request) (getOk : Bool)
  | announce (i : Nat)
  | queue (i : Nat)
  | checkResult (requestId : String) (getOk : Bool)
  | handleResponse (insertOk : Bool)
  | join (ok : Bool)
  deriving DecidableEq, Repr

/-- What is recorded of a step: the outcome of a call's checks, the status it
sends, its answer, and the answer of `check_result`. -/
inductive Obs
  | called (req : Request) (refusal : Option Status)
  | sent (r : CheckResultResponse)
  | returned (req : Request) (answer : Except Status String)
  | checked (requestId : String) (answer : Except Status CheckResultResponse)

/-- A server as it is started. -/
def init (db : Tree C) : Server C :=
  { resultsDb := db, rx := [], rxRes := [], calls := [], bootstrap := .joining }

/-- `results_db.contains_key(..).map_or(false, |x| x)`. -/
def containsKey (s : Server C) (getOk : Bool) (requestId : String) : Bool :=
  getOk && (s.resultsDb requestId).isSome

/-- What `keygen` and `sign` refuse a request with, before they send anything. -/
def refusal (s : Server C) (getOk : Bool) : Request → Option Status
  | .keygen req =>
      if s.containsKey getOk req.requestId then some (.alreadyExists req.requestId) else none
  | .sign req =>
      if s.containsKey getOk req.requestId then some (.alreadyExists req.requestId)
      else match C.bigIntFromHex req.hash with
        | some _ => none
        | none => some .invalidHash

/-- `tx.send(request)`, and the answer that goes with it. -/
def send (s : Server C) (req : Request) : Except Status String × List Request :=
  if s.bootstrap = .gone then (.error .notQueued, s.rx) else (.ok req.requestId, s.rx ++ [req])

/-- `check_result` -/
def checkResult (s : Server C) (getOk : Bool) (requestId : String) :
    Except Status CheckResultResponse :=
  if getOk then
    match s.resultsDb requestId with
    | none => .error .notFound
    | some response =>
        match C.checkResultResponse.read response with
        | some r => .ok r
        | none => .error .notFound
  else .error .notFound

/-- `save_result`: the database after it, or nothing where it fails. -/
def saveResult (db : Tree C) (insertOk : Bool) (response : CheckResultResponse) :
    Option (Tree C) := do
  let value ← C.checkResultResponse.write response
  if insertOk then some (Function.update db response.requestId (some value)) else none

/-- One step of the server. -/
def step : Step (Server C) Event Obs := fun s e =>
  match e with
  | .call req getOk =>
      match s.refusal getOk req with
      | some status => some (s, [.called req (some status)])
      | none =>
          some ({ s with calls := s.calls ++ [{ request := req, announced := false }] },
            [.called req none])
  | .announce i =>
      match s.calls[i]? with
      | some ⟨req, false⟩ =>
          some ({ s with calls := s.calls.set i { request := req, announced := true }
                         rxRes := s.rxRes ++ [received req] }, [.sent (received req)])
      | _ => none
  | .queue i =>
      match s.calls[i]? with
      | some ⟨req, true⟩ =>
          some ({ s with calls := s.calls.eraseIdx i, rx := (s.send req).2 },
            [.returned req (s.send req).1])
      | _ => none
  | .checkResult requestId getOk =>
      some (s, [.checked requestId (s.checkResult getOk requestId)])
  | .handleResponse insertOk =>
      match s.rxRes with
      | response :: rest =>
          some ({ s with rxRes := rest
                         resultsDb := (saveResult s.resultsDb insertOk response).getD s.resultsDb },
            [])
      | [] => none
  | .join ok =>
      match s.bootstrap with
      | .joining =>
          some (if ok then { s with bootstrap := .serving }
            else { s with bootstrap := .gone, rx := [] }, [])
      | _ => none

/-! ## What a step can do -/

/-- **What a step of the server can do.** -/
inductive Steps (s : Server C) : Event → Server C → List Obs → Prop
  | refused {req getOk status} : s.refusal getOk req = some status →
      Steps s (.call req getOk) s [.called req (some status)]
  | admitted {req getOk} : s.refusal getOk req = none →
      Steps s (.call req getOk)
        { s with calls := s.calls ++ [{ request := req, announced := false }] }
        [.called req none]
  | announced {i req} : s.calls[i]? = some ⟨req, false⟩ →
      Steps s (.announce i)
        { s with calls := s.calls.set i ⟨req, true⟩, rxRes := s.rxRes ++ [received req] }
        [.sent (received req)]
  | queued {i req} : s.calls[i]? = some ⟨req, true⟩ → s.bootstrap ≠ .gone →
      Steps s (.queue i) { s with calls := s.calls.eraseIdx i, rx := s.rx ++ [req] }
        [.returned req (.ok req.requestId)]
  | lost {i req} : s.calls[i]? = some ⟨req, true⟩ → s.bootstrap = .gone →
      Steps s (.queue i) { s with calls := s.calls.eraseIdx i }
        [.returned req (.error .notQueued)]
  | checked {requestId getOk} :
      Steps s (.checkResult requestId getOk) s
        [.checked requestId (s.checkResult getOk requestId)]
  | saved {insertOk response rest} : s.rxRes = response :: rest →
      Steps s (.handleResponse insertOk)
        { s with rxRes := rest
                 resultsDb := (saveResult s.resultsDb insertOk response).getD s.resultsDb } []
  | joined : s.bootstrap = .joining →
      Steps s (.join true) { s with bootstrap := .serving } []
  | left : s.bootstrap = .joining →
      Steps s (.join false) { s with bootstrap := .gone, rx := [] } []

theorem step_cases {s t : Server C} {e : Event} {o : List Obs} (h : s.step e = some (t, o)) :
    Steps s e t o := by
  cases e with
  | call req getOk =>
      simp only [step] at h
      split at h
      · cases h
        exact .refused ‹_›
      · cases h
        exact .admitted ‹_›
  | announce i =>
      simp only [step] at h
      split at h
      · cases h
        exact .announced ‹_›
      · cases h
  | queue i =>
      simp only [step] at h
      split at h
      · rename_i req hget
        by_cases hgone : s.bootstrap = .gone
        · have hsend : s.send req = (.error .notQueued, s.rx) := if_pos hgone
          rw [hsend] at h
          cases h
          exact .lost hget hgone
        · have hsend : s.send req = (.ok req.requestId, s.rx ++ [req]) := if_neg hgone
          rw [hsend] at h
          cases h
          exact .queued hget hgone
      · cases h
  | checkResult requestId getOk =>
      cases h
      exact .checked
  | handleResponse insertOk =>
      simp only [step] at h
      split at h
      · cases h
        exact .saved ‹_›
      · cases h
  | join ok =>
      simp only [step] at h
      split at h
      · rename_i hjoining
        cases ok <;> cases h
        · exact .left hjoining
        · exact .joined hjoining
      · cases h

/-! ## The record of a request -/

/-- With a working database a call is refused at its lookup exactly when
there is a record of its id. -/
theorem refusal_of_record {s : Server C} {req : Request}
    (h : s.resultsDb req.requestId ≠ none) :
    s.refusal true req = some (.alreadyExists req.requestId) := by
  obtain ⟨b, hb⟩ := Option.ne_none_iff_exists'.mp h
  cases req <;> simp only [Request.requestId] at hb <;>
    simp [refusal, containsKey, hb, Request.requestId]

theorem no_record_of_admitted {s : Server C} {req : Request} (h : s.refusal true req = none) :
    s.resultsDb req.requestId = none := by
  by_contra hb
  rw [refusal_of_record hb] at h
  cases h

theorem checkResult_of_record {s : Server C} {requestId : String} {b : C.Blob}
    {r : CheckResultResponse} (hb : s.resultsDb requestId = some b)
    (hr : C.checkResultResponse.read b = some r) : s.checkResult true requestId = .ok r := by
  simp [checkResult, hb, hr]

/-- A working database takes every status, and gives it back. -/
theorem saveResult_eq (db : Tree C) (hjson : C.checkResultResponse.RoundTrips)
    (response : CheckResultResponse) :
    ∃ b, saveResult db true response = some (Function.update db response.requestId (some b)) ∧
      C.checkResultResponse.read b = some response := by
  obtain ⟨b, hwrite, hread⟩ := hjson response
  exact ⟨b, by simp [saveResult, hwrite], hread⟩

end Server

end MpcServer

import MpcServer.Brokers
import MpcServer.Logging

/-!
# The outgoing sink

Everything a server says goes through one sink, a message at a time, and the sink hands
its client and its key over to every broadcast. How long that goes well is up to the first
broadcast that fails.
-/

namespace MpcServer

open Rust Rust.Method

variable {C : Crates} {Client : Type}

/-! ## Sending -/

variable (C Client) in
/-- The field `sink` of the coordinator: whether the sink is in its place, and whether it
has a state. -/
abbrev SinkField := Option (Option (Outgoing C Client))

section
variable (L : LogCrates C) (f : Outgoing C Client → Posting → Except String (Outgoing C Client))

/-- What is put out is every message that was attempted, and whether it got out. -/
def sendOne (x : Posting) : Method (SinkField C Client) (CoreMessage × Bool) String Unit := do
  let field ← self
  modify fun _ => none
  let sink ← orPanic (unwrap field)
  log (describeMessage L x.envelope.message)
  let sent ← orPanic (unwrap (Unfold.send f sink x))
  emit (x.envelope, sent.1.isOk)
  -- the result is dropped, and the sink put back
  modify fun _ => some sent.2

/-- `critical_section` lets one message at a time through; a panic takes the actor down. -/
def sendMany : List Posting → Method (SinkField C Client) (CoreMessage × Bool) String Unit
  | [] => pure ()
  | x :: xs => do
      sendOne L f x
      sendMany xs

end

/-- No send panics, and every message is attempted in its turn and lost only by its own
fault. -/
def StaysUsable (L : LogCrates C)
    (f : Outgoing C Client → Posting → Except String (Outgoing C Client))
    (state : Outgoing C Client) (xs : List Posting) : Prop :=
  Ends (sendMany L f xs) (some (some state)) fun r _ attempts =>
    isPanic r = false ∧ attempts = xs.map fun x => (x.envelope, goes state x)

section
variable {L : LogCrates C} {f : Outgoing C Client → Posting → Except String (Outgoing C Client)}

theorem sendOne_run_sent (hlog : L.Laws) {sink : Option (Outgoing C Client)} {x : Posting}
    {r : Except String Unit} {sink' : Option (Outgoing C Client)}
    (h : Unfold.send f sink x = some (r, sink')) :
    (sendOne L f x).run (some sink) = (.ok (), some sink', [(x.envelope, r.isOk)]) := by
  simp only [sendOne, log_describeMessage hlog, run_bind, run_self, run_modify, unwrap,
    run_orPanic_ok, run_pure, h, run_emit, List.nil_append, List.append_nil]

theorem sendOne_run_panicked (hlog : L.Laws) {sink : Option (Outgoing C Client)} {x : Posting}
    (h : Unfold.send f sink x = none) :
    (sendOne L f x).run (some sink) = (.error (.panic .unwrapNone), none, []) := by
  simp only [sendOne, log_describeMessage hlog, run_bind, run_self, run_modify, unwrap,
    run_orPanic_ok, run_pure, h, run_orPanic_error, List.nil_append]

/-- `send_one` after `send_one` is a sender that ignores what a send returns. -/
theorem sendMany_run (hlog : L.Laws) {xs : List Posting} {sink sink' : Option (Outgoing C Client)}
    {rs : List (Except String Unit)} (h : Unfold.sendAll f sink xs = some (rs, sink')) :
    (sendMany L f xs).run (some sink) =
      (.ok (), some sink', List.zipWith (fun x r => (x.envelope, r.isOk)) xs rs) := by
  induction xs generalizing sink rs with
  | nil =>
      cases h
      rfl
  | cons x xs ih =>
      rw [Unfold.sendAll] at h
      split at h
      · cases h
      · rename_i r next hsend
        obtain ⟨⟨rest, last⟩, hrest, heq⟩ := Option.map_eq_some_iff.mp h
        cases heq
        rw [sendMany, run_bind_ok (sendOne_run_sent hlog hsend), ih hrest]
        rfl

theorem sendMany_panics (hlog : L.Laws) {xs : List Posting} {sink : Option (Outgoing C Client)}
    (h : Unfold.sendAll f sink xs = none) :
    isPanic ((sendMany L f xs).run (some sink)).1 = true := by
  induction xs generalizing sink with
  | nil => cases h
  | cons x xs ih =>
      rw [Unfold.sendAll] at h
      split at h
      · rename_i hsend
        rw [sendMany, run_bind_error (sendOne_run_panicked hlog hsend)]
        rfl
      · rename_i r next hsend
        rw [sendMany, run_bind_ok (sendOne_run_sent hlog hsend)]
        exact ih (Option.map_eq_none_iff.mp h)

theorem staysUsable_iff_sendAll (hlog : L.Laws) {P : Outgoing C Client → Prop}
    {state : Outgoing C Client} (hf : Unfold.Decides f P (goes state)) (hs : P state)
    (xs : List Posting) :
    StaysUsable L f state xs ↔ (Unfold.sendAll f (some state) xs).isSome = true := by
  unfold StaysUsable Ends
  cases h : Unfold.sendAll f (some state) xs with
  | none =>
      have hpanics := sendMany_panics hlog h
      refine iff_of_false (fun hwell => ?_) (fun h => nomatch h)
      exact Bool.false_ne_true (hwell.1.symm.trans hpanics)
  | some result =>
      obtain ⟨rs, sink⟩ := result
      rw [sendMany_run hlog h]
      refine iff_of_true (And.intro rfl ?_) rfl
      have hresults := Unfold.results_of_sendAll hf hs h
      have hzip : List.zipWith (fun x r => (x.envelope, r.isOk)) xs rs =
          List.zipWith (fun (x : Posting) b => (x.envelope, b)) xs (rs.map Except.isOk) := by
        rw [List.zipWith_map_right]
      show List.zipWith _ xs rs = _
      rw [hzip, hresults, List.zipWith_map_right, List.zipWith_self]

end

/-- **How long the sink stays usable.** Over either broker, every message is attempted in
its turn and nothing panics exactly if all messages but the last are signed, written and
taken by the broker: the first failure is the last thing the sink does. -/
theorem staysUsable_iff {L : LogCrates C} (hlog : L.Laws) (publish : Client → String → Client)
    (client : Client) (key : C.SecretKey) (xs : List Posting) :
    (StaysUsable L outgoingViaMessenger (.join client key) xs ↔
      ∀ x ∈ xs.dropLast, goes (Outgoing.join client key) x = true) ∧
    (StaysUsable L (outgoingViaRedis publish) (.join client key) xs ↔
      ∀ x ∈ xs.dropLast, goes (Outgoing.join client key) x = true) := by
  have hforward : ∀ publish : Client → String → Client,
      StaysUsable L (forward publish) (.join client key) xs ↔
        ∀ x ∈ xs.dropLast, goes (Outgoing.join client key) x = true := by
    intro publish
    have hdecides := forward_decides publish (Outgoing.join client key)
    rw [staysUsable_iff_sendAll hlog hdecides ⟨rfl, rfl⟩,
      Unfold.sendAll_isSome_iff hdecides ⟨rfl, rfl⟩]
  exact ⟨hforward _, hforward publish⟩

namespace Sample

/-- A text for the sink, and whether the broker takes it. -/
def posting (text : String) (broadcastOk : Bool) : Posting :=
  { envelope := { room := "k1@73ee5cd6c20e0c08", message := text }, broadcastOk }

/-- Bob has two messages to send. -/
def talking : Scenario where
  wires := [envelope .bob "k1@73ee5cd6c20e0c08" "one", envelope .bob "k1@73ee5cd6c20e0c08" "two"]

/-- What Bob's sink begins with. -/
def bobsOutgoing : Outgoing (crates talking) Unit := .join () Party.bob

/-- The broker refuses the last message: all were attempted. -/
theorem staysUsable_of_lastRefused :
    StaysUsable (logCrates talking) outgoingViaMessenger bobsOutgoing
        [posting "one" true, posting "two" false] ∧
      StaysUsable (logCrates talking) (outgoingViaRedis fun _ _ => ()) bobsOutgoing
        [posting "one" true, posting "two" false] := by
  obtain ⟨hmessenger, hredis⟩ := staysUsable_iff (logLaws talking) (fun _ _ => ()) () Party.bob
    [posting "one" true, posting "two" false]
  have hgoes : ∀ x ∈ [posting "one" true, posting "two" false].dropLast,
      goes (Outgoing.join () Party.bob : Outgoing (crates talking) Unit) x = true := by
    decide
  exact ⟨hmessenger.mpr hgoes, hredis.mpr hgoes⟩

/-- The broker refuses one message, and the next finds a sink without a state. -/
theorem not_staysUsable_of_firstRefused :
    ¬ StaysUsable (logCrates talking) outgoingViaMessenger bobsOutgoing
        [posting "one" false, posting "two" true] ∧
      ¬ StaysUsable (logCrates talking) (outgoingViaRedis fun _ _ => ()) bobsOutgoing
        [posting "one" false, posting "two" true] := by
  constructor
  · intro h
    exact absurd h.1 (by decide)
  · intro h
    exact absurd h.1 (by decide)

end Sample

end MpcServer

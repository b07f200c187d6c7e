import MpcServer.Crates

/-!
# The player

A player drives one state machine: it feeds it the messages addressed to its
index, lets it proceed, sends on what it queued and hands over its output.
What it sends goes to the coordinator's mailbox. The code is generic in the
state machine; keygen and the offline stage are its two instances.
-/

namespace MpcServer

open Rust Rust.Method

/-- A player around a state machine `SM`, for the request `I`. -/
structure MpcPlayer (I SM : Type) where
  input : I
  room : String
  index : UInt16
  msgCount : UInt16
  state : SM
  deadline : Option Nat
  currentRound : Option UInt16

/-- What a player sends to the coordinator. `failed` is proof-only: it marks
an error of `proceed` or `pick_output`, which not every caller reports. -/
inductive PlayerSend (I β ε ο : Type)
  | error (e : ProtocolError ε (IncomingMessage (Msg β)))
  | outgoing (msg : CoreMessage)
  | output (out : ProtocolOutput I ο)
  | failed (e : ε)

namespace MpcPlayer

variable {I SM β ε ο : Type} [StateMachine SM β ε ο]

/-- A player before its first message. -/
def new (input : I) (room : String) (index : UInt16) (state : SM) : MpcPlayer I SM :=
  { input, room, index, msgCount := 0, state, deadline := none, currentRound := none }

/-- A method of the player, with errors of the state machine. -/
abbrev Call (I SM β ε ο α : Type) := Method (MpcPlayer I SM) (PlayerSend I β ε ο) ε α

/-- Reports an error to the coordinator, with the message that caused it. -/
def sendError (error : ε) (message : IncomingMessage (Msg β)) : Call I SM β ε ο Unit := do
  let p ← self
  emit (.error { room := p.room, error, message })

/-- Feeds the machine one message. -/
def handleIncoming (msg : IncomingMessage (Msg β)) : Call I SM β ε ο Unit := do
  let p ← self
  let r := StateMachine.handleIncoming p.state msg.message
  modify ({ · with state := r.2 })
  match r.1 with
  | .ok () => pure ()
  | .error e => sendError e msg

/-- Lets the machine proceed if it wants to. -/
def proceedIfNeeded : Call I SM β ε ο Unit := do
  let p ← self
  if StateMachine.wantsToProceed p.state then
    let r := StateMachine.proceed p.state
    modify ({ · with state := r.2 })
    match r.1 with
    | .ok () => pure ()
    | .error e => do
        emit (.failed e)
        question (.error e)
  else pure ()

/-- Drain the queue of the state machine; a message that does not serialise
is left out. -/
def sendOutgoing (codec : Serde (Msg β) String) : Call I SM β ε ο Unit := do
  let p ← self
  let queue := StateMachine.messageQueue p.state
  modify ({ · with state := StateMachine.drainQueue p.state })
  emitAll ((queue.filterMap codec.write).map fun message =>
    .outgoing { room := p.room, message })

/-- The output goes to the coordinator. -/
def sendResult (result : ο) : Call I SM β ε ο Unit := do
  let p ← self
  emit (.output { input := p.input, output := result })

/-- Picks the output of a machine that is finished. -/
def finishIfPossible : Call I SM β ε ο Unit := do
  let p ← self
  if StateMachine.isFinished p.state then
    let r := StateMachine.pickOutput p.state
    modify ({ · with state := r.2 })
    match r.1 with
    | some (.ok result) => sendResult result
    | some (.error e) => do
        emit (.failed e)
        question (.error e)
    | none => pure ()
  else pure ()

/-- A new round gets a new deadline. -/
def refreshTimer (now : Nat) : Call I SM β ε ο Unit := do
  let p ← self
  let roundN := StateMachine.currentRound p.state
  if p.currentRound ≠ some roundN then
    modify ({ · with
      currentRound := some roundN
      deadline := (StateMachine.roundTimeout p.state).map (now + ·) })
  else pure ()

/-- What a call does with the machine: it is drained, proceeds, is drained again, and may finish. -/
def maybeProceed (codec : Serde (Msg β) String) (now : Nat) : Call I SM β ε ο Unit := do
  sendOutgoing codec
  refreshTimer now
  proceedIfNeeded
  sendOutgoing codec
  refreshTimer now
  let _ ← attempt (ε := ε) finishIfPossible
  pure ()

/-- A broadcast is for everybody, any other message for its receiver. -/
def validReceiver (index : UInt16) : Option UInt16 → Bool
  | some i => i = index
  | none => true

/-- `Handler<IncomingMessage<..>>`. -/
def handle (checks : Bool) (codec : Serde (Msg β) String) (now : Nat)
    (msg : IncomingMessage (Msg β)) : Call I SM β ε ο Unit := do
  let p ← self
  if msg.message.sender = p.index then pure ()
  else if validReceiver p.index msg.message.receiver then do
    let msgCount ← orPanic (addU16 checks p.msgCount 1)
    modify ({ · with msgCount })
    handleIncoming msg
    match ← attempt (ε := ε) (maybeProceed codec now) with
    | .ok () => pure ()
    | .error e => sendError e msg
  else pure ()

/-- `Handler<MaybeProceed>`: it asks for the next tick until the first
message has come in; from then on a tick does nothing. -/
def tick (codec : Serde (Msg β) String) (now : Nat) : Call I SM β ε ο Unit := do
  let p ← self
  if p.msgCount = 0 then do
    let _ ← attempt (ε := ε) (maybeProceed codec now)
    pure ()
  else pure ()

/-! ## What a player keeps, and what it sends -/

/-- The identity of a player never changes. -/
def Same (p q : MpcPlayer I SM) : Prop :=
  q.input = p.input ∧ q.room = p.room ∧ q.index = p.index

theorem Same.refl (p : MpcPlayer I SM) : Same p p := ⟨rfl, rfl, rfl⟩

/-- What player `p` may send while it handles `msg` (or a tick, for `none`):
errors are reported about that very message, outgoing messages go to its own
room, and an output comes with its own input. -/
def Sends (p : MpcPlayer I SM) (msg : Option (IncomingMessage (Msg β))) :
    PlayerSend I β ε ο → Prop
  | .error e => e.room = p.room ∧ some e.message = msg
  | .outgoing m => m.room = p.room
  | .output o => o.input = p.input
  | .failed _ => True

section
variable {p : MpcPlayer I SM} {msg : Option (IncomingMessage (Msg β))}

omit [StateMachine SM β ε ο] in
theorem sendError_keeps {m : IncomingMessage (Msg β)} (hm : some m = msg) (e : ε) :
    Keeps (Same p) (Sends p msg) (sendError e m : Call I SM β ε ο Unit) :=
  keeps_bind_self fun _ hq => keeps_emit ⟨hq.2.1, hm⟩

theorem handleIncoming_keeps {m : IncomingMessage (Msg β)} (hm : some m = msg) :
    Keeps (Same p) (Sends p msg) (handleIncoming m : Call I SM β ε ο Unit) := by
  refine keeps_bind_self fun q _ => keeps_bind (keeps_modify fun _ h => h) fun _ => ?_
  split
  · exact keeps_pure _
  · exact sendError_keeps hm _

theorem proceedIfNeeded_keeps :
    Keeps (Same p) (Sends p msg) (proceedIfNeeded : Call I SM β ε ο Unit) := by
  refine keeps_bind_self fun q _ => keeps_ite (fun _ => ?_) fun _ => keeps_pure _
  refine keeps_bind (keeps_modify fun _ h => h) fun _ => ?_
  split
  · exact keeps_pure _
  · exact keeps_bind (keeps_emit trivial) fun _ => keeps_question _

theorem sendOutgoing_keeps (codec : Serde (Msg β) String) :
    Keeps (Same p) (Sends p msg) (sendOutgoing codec : Call I SM β ε ο Unit) := by
  refine keeps_bind_self fun q hq => keeps_bind (keeps_modify fun _ h => h) fun _ => ?_
  refine keeps_emitAll fun o ho => ?_
  obtain ⟨m, -, rfl⟩ := List.mem_map.mp ho
  exact hq.2.1

theorem finishIfPossible_keeps :
    Keeps (Same p) (Sends p msg) (finishIfPossible : Call I SM β ε ο Unit) := by
  refine keeps_bind_self fun q _ => keeps_ite (fun _ => ?_) fun _ => keeps_pure _
  refine keeps_bind (keeps_modify fun _ h => h) fun _ => ?_
  split
  · exact keeps_bind_self fun _ hq => keeps_emit hq.1
  · exact keeps_bind (keeps_emit trivial) fun _ => keeps_question _
  · exact keeps_pure _

theorem refreshTimer_keeps (now : Nat) :
    Keeps (Same p) (Sends p msg) (refreshTimer now : Call I SM β ε ο Unit) :=
  keeps_bind_self fun _ _ =>
    keeps_ite (fun _ => keeps_modify fun _ h => h) fun _ => keeps_pure _

theorem maybeProceed_keeps (codec : Serde (Msg β) String) (now : Nat) :
    Keeps (Same p) (Sends p msg) (maybeProceed codec now : Call I SM β ε ο Unit) :=
  keeps_bind (sendOutgoing_keeps codec) fun _ =>
  keeps_bind (refreshTimer_keeps now) fun _ =>
  keeps_bind proceedIfNeeded_keeps fun _ =>
  keeps_bind (sendOutgoing_keeps codec) fun _ =>
  keeps_bind (refreshTimer_keeps now) fun _ =>
  keeps_bind (keeps_attempt finishIfPossible_keeps) fun _ => keeps_pure _

end

theorem handle_keeps (p : MpcPlayer I SM) (checks : Bool) (codec : Serde (Msg β) String)
    (now : Nat) (m : IncomingMessage (Msg β)) :
    Keeps (Same p) (Sends p (some m)) (handle checks codec now m : Call I SM β ε ο Unit) := by
  refine keeps_bind_self fun q _ => keeps_ite (fun _ => keeps_pure _) fun _ => ?_
  refine keeps_ite (fun _ => ?_) fun _ => keeps_pure _
  refine keeps_bind (keeps_orPanic _) fun n => keeps_bind (keeps_modify fun _ h => h) fun _ => ?_
  refine keeps_bind (handleIncoming_keeps rfl) fun _ => ?_
  refine keeps_bind (keeps_attempt (maybeProceed_keeps codec now)) fun r => ?_
  split
  · exact keeps_pure _
  · exact sendError_keeps rfl _

theorem tick_keeps (p : MpcPlayer I SM) (codec : Serde (Msg β) String) (now : Nat) :
    Keeps (Same p) (Sends p none) (tick codec now : Call I SM β ε ο Unit) :=
  keeps_bind_self fun _ _ =>
    keeps_ite (fun _ => keeps_bind (keeps_attempt (maybeProceed_keeps codec now)) fun _ =>
      keeps_pure _) fun _ => keeps_pure _

/-! ## How many errors a player reports -/

/-- An error report that `late` tells of. -/
def reportsLate (late : ε → Bool) : PlayerSend I β ε ο → Bool
  | .error e => late e.error
  | _ => false

section
variable {late : ε → Bool}

omit [StateMachine SM β ε ο] in
theorem sendError_run (e : ε) (m : IncomingMessage (Msg β)) (p : MpcPlayer I SM) :
    (sendError e m : Call I SM β ε ο Unit).run p =
      (.ok (), p, [.error { room := p.room, error := e, message := m }]) := rfl

/-- The machine gets the message; all that goes out is its error. -/
theorem handleIncoming_run (m : IncomingMessage (Msg β)) (p : MpcPlayer I SM) :
    ∃ sends, (handleIncoming m : Call I SM β ε ο Unit).run p =
        (.ok (), { p with state := (StateMachine.handleIncoming p.state m.message).2 }, sends) ∧
      (sends = [] ∨ ∃ e, sends = [.error e]) := by
  unfold handleIncoming
  simp only [run_bind, run_self, run_modify, List.nil_append]
  cases (StateMachine.handleIncoming p.state m.message).1 with
  | ok _ => exact ⟨_, rfl, .inl rfl⟩
  | error e => exact ⟨_, rfl, .inr ⟨_, rfl⟩⟩

/-- A player that proceeds reports nothing itself, and only what `proceed`
fails with gets out. -/
theorem maybeProceed_raises (hproceed : ∀ (k : SM) e, (StateMachine.proceed k).1 = .error e →
    late e = false) (codec : Serde (Msg β) String) (now : Nat) :
    Raises (late · = false) (maybeProceed codec now : Call I SM β ε ο Unit) := by
  have hneeded : Raises (late · = false) (proceedIfNeeded : Call I SM β ε ο Unit) := by
    refine raises_bind raises_self fun q => raises_ite (fun _ => ?_) fun _ => raises_pure _
    refine raises_bind (raises_modify _) fun _ => ?_
    split
    · exact raises_pure _
    · rename_i e he
      exact raises_bind (raises_emit _) fun _ => raises_question fun e' h => by
        cases h
        exact hproceed _ e he
  have hsend : Raises (late · = false) (sendOutgoing codec : Call I SM β ε ο Unit) :=
    raises_bind raises_self fun _ => raises_bind (raises_modify _) fun _ => raises_emitAll _
  have htimer : Raises (late · = false) (refreshTimer now : Call I SM β ε ο Unit) :=
    raises_bind raises_self fun _ => raises_ite (fun _ => raises_modify _) fun _ => raises_pure _
  exact raises_bind hsend fun _ => raises_bind htimer fun _ => raises_bind hneeded fun _ =>
    raises_bind hsend fun _ => raises_bind htimer fun _ =>
    raises_bind (raises_attempt _) fun _ => raises_pure _

theorem handle_reports (hproceed : ∀ (k : SM) e, (StateMachine.proceed k).1 = .error e →
    late e = false) (checks : Bool) (codec : Serde (Msg β) String) (now : Nat)
    (m : IncomingMessage (Msg β)) (p : MpcPlayer I SM) :
    ((handle checks codec now m : Call I SM β ε ο Unit).run p).2.2.countP
      (reportsLate late) ≤ 1 := by
  unfold handle
  simp only [run_bind, run_self, List.nil_append]
  split
  · exact Nat.zero_le _
  split
  · cases addU16 checks p.msgCount 1 with
    | error stop => exact Nat.zero_le _
    | ok count =>
        obtain ⟨os, hrun, hsends⟩ := handleIncoming_run (β := β) (ε := ε) (ο := ο) m
          ({ p with msgCount := count } : MpcPlayer I SM)
        have hos : os.countP (reportsLate late) ≤ 1 := by
          obtain rfl | ⟨e, rfl⟩ := hsends
          · exact Nat.zero_le _
          · exact List.countP_le_length
        generalize ({ p with
          msgCount := count
          state := (StateMachine.handleIncoming p.state m.message).2 } : MpcPlayer I SM) = q
          at hrun
        -- once the message is handed over, what runs is as in a tick, which reports nothing
        have hsilent : ∀ s ∈ ((maybeProceed codec now : Call I SM β ε ο Unit).run q).2.2,
            Sends q none s := (maybeProceed_keeps codec now q (.refl q)).2
        have hquiet : ((maybeProceed codec now : Call I SM β ε ο Unit).run q).2.2.countP
            (reportsLate late) = 0 := by
          refine List.countP_eq_zero.mpr fun s hs => ?_
          have := hsilent s hs
          cases s with
          | error e => cases this.2
          | _ => simp [reportsLate]
        have hraises : ∀ e, ((maybeProceed codec now : Call I SM β ε ο Unit).run q).1 =
            .error (.err e) → late e = false := maybeProceed_raises hproceed codec now q
        simp only [run_bind, run_orPanic_ok, run_modify, hrun, run_attempt, List.nil_append]
        generalize (maybeProceed codec now : Call I SM β ε ο Unit).run q = r at hquiet hraises ⊢
        obtain ⟨(e | stop) | u, q', sends⟩ := r
        · -- the error of `proceed` is one report more, but not a late one
          simp only [sendError_run, List.countP_append, hquiet, List.countP_singleton]
          simp [reportsLate, hraises e rfl, hos]
        · simpa [hquiet] using hos
        · simpa [hquiet] using hos
  · exact Nat.zero_le _

end

end MpcPlayer

end MpcServer

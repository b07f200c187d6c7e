import MpcServer.Actors.Loop
import MpcServer.Progress

/-!
# What a player forwards

A player does with the calls that get through to its machine what the plain
loop does, and nothing with the others. What it forwards is what the machine
queued, and its output goes out once.
-/

namespace MpcServer

open Rust Rust.Method

/-! ## A player's calls -/

namespace PlayerSend

variable {I β ε ο : Type}

/-- The message in what a player sends. -/
def outgoing? : PlayerSend I β ε ο → Option CoreMessage
  | .outgoing m => some m
  | _ => none

/-- The output in what a player sends. -/
def output? : PlayerSend I β ε ο → Option (ProtocolOutput I ο)
  | .output out => some out
  | _ => none

end PlayerSend

namespace MpcPlayer

variable {I SM β ε ο : Type} [StateMachine SM β ε ο]

/-- What a player sends: to the broker the messages in `sent`, in its room, to
the collector the outputs, with its input. -/
structure Renders (p : MpcPlayer I SM) (codec : Serde (Msg β) String) (sent : List (Msg β))
    (outputs : List ο) (sends : List (PlayerSend I β ε ο)) : Prop where
  outgoing : sends.filterMap PlayerSend.outgoing? =
    (sent.filterMap codec.write).map fun message => { room := p.room, message }
  outputs : sends.filterMap PlayerSend.output? =
    outputs.map fun output => { input := p.input, output }

omit [StateMachine SM β ε ο] in
theorem Renders.append {p q : MpcPlayer I SM} {codec : Serde (Msg β) String}
    {sent sent' : List (Msg β)} {outputs outputs' : List ο}
    {sends sends' : List (PlayerSend I β ε ο)} (h : Renders p codec sent outputs sends)
    (hsame : Same p q) (h' : Renders q codec sent' outputs' sends') :
    Renders p codec (sent ++ sent') (outputs ++ outputs') (sends ++ sends') := by
  obtain ⟨hinput, hroom, -⟩ := hsame
  constructor
  · simp only [List.filterMap_append, List.map_append, h.outgoing, h'.outgoing, hroom]
  · simp only [List.filterMap_append, List.map_append, h.outputs, h'.outputs, hinput]

/-- The messages of a list, as a player sends them on. -/
def forwards (p : MpcPlayer I SM) (codec : Serde (Msg β) String) (msgs : List (Msg β)) :
    List (PlayerSend I β ε ο) :=
  (msgs.filterMap codec.write).map fun message => .outgoing { room := p.room, message }

omit [StateMachine SM β ε ο] in
theorem outgoing?_forwards (p : MpcPlayer I SM) (codec : Serde (Msg β) String)
    (msgs : List (Msg β)) :
    (p.forwards codec msgs : List (PlayerSend I β ε ο)).filterMap PlayerSend.outgoing? =
      (msgs.filterMap codec.write).map fun message => { room := p.room, message } := by
  simp [forwards, List.filterMap_map, Function.comp_def, PlayerSend.outgoing?]

omit [StateMachine SM β ε ο] in
theorem output?_forwards (p : MpcPlayer I SM) (codec : Serde (Msg β) String)
    (msgs : List (Msg β)) :
    (p.forwards codec msgs : List (PlayerSend I β ε ο)).filterMap PlayerSend.output? = [] := by
  simp [forwards, List.filterMap_map, Function.comp_def, PlayerSend.output?]

theorem sendOutgoing_forwards (codec : Serde (Msg β) String) (p : MpcPlayer I SM) :
    (sendOutgoing codec : Call I SM β ε ο Unit).run p =
      (.ok (), { p with state := StateMachine.drainQueue p.state },
        p.forwards codec (StateMachine.messageQueue p.state)) := rfl

theorem refreshTimer_sets (now : Nat) (p : MpcPlayer I SM) :
    ∃ deadline currentRound, (refreshTimer now : Call I SM β ε ο Unit).run p =
      (.ok (), { p with deadline, currentRound }, []) := by
  unfold refreshTimer
  simp only [run_bind, run_self]
  split
  · exact ⟨_, _, rfl⟩
  · exact ⟨p.deadline, p.currentRound, rfl⟩

theorem proceedIfNeeded_advances (p : MpcPlayer I SM) :
    (proceedIfNeeded : Call I SM β ε ο Unit).run p =
      match (advanced p.state).1 with
      | .ok () => (.ok (), { p with state := (advanced p.state).2 }, [])
      | .error e => (.error (.err e), { p with state := (advanced p.state).2 }, [.failed e]) := by
  unfold proceedIfNeeded advanced
  simp only [run_bind, run_self]
  split
  · simp only [run_bind, run_modify]
    cases (StateMachine.proceed p.state).1 <;> rfl
  · rfl

/-- An output that was picked goes to the collector, an error of `pick_output`
to nobody. -/
theorem finishIfPossible_finishes (p : MpcPlayer I SM) :
    ∃ r sends, (attempt finishIfPossible : Call I SM β ε ο (Except ε Unit)).run p =
        (.ok r, { p with state := (finished p.state).2 }, sends) ∧
      sends.filterMap PlayerSend.outgoing? = [] ∧
      sends.filterMap PlayerSend.output? =
        (finished p.state).1.toList.map fun output => { input := p.input, output } := by
  rw [run_attempt]
  unfold finishIfPossible finished
  by_cases hfinished : StateMachine.isFinished p.state = true
  · simp only [run_bind, run_self, hfinished, if_true, run_modify, List.nil_append]
    cases (StateMachine.pickOutput p.state).1 with
    | none => exact ⟨_, _, rfl, rfl, rfl⟩
    | some out =>
        cases out with
        | ok o => exact ⟨_, _, rfl, rfl, rfl⟩
        | error e => exact ⟨_, _, rfl, rfl, rfl⟩
  · simp only [run_bind, run_self, hfinished]
    exact ⟨_, _, rfl, rfl, rfl⟩

/-- **`maybe_proceed` is a turn of the loop with nothing handed over.** -/
theorem maybeProceed_turns (codec : Serde (Msg β) String) (now : Nat) (p : MpcPlayer I SM) :
    ∃ r q sends, (attempt (maybeProceed codec now) : Call I SM β ε ο (Except ε Unit)).run p =
        (.ok r, q, sends) ∧
      q.state = (turn (ε := ε) (ο := ο) p.state none).state ∧
      Renders p codec (turn p.state none).sent (turn p.state none).outputs sends := by
  obtain ⟨deadline, round, htimer⟩ := refreshTimer_sets (β := β) (ε := ε) (ο := ο) now
    { p with state := StateMachine.drainQueue p.state }
  have hproceed := proceedIfNeeded_advances (β := β) (ε := ε) (ο := ο)
    { p with state := StateMachine.drainQueue p.state, deadline, currentRound := round }
  unfold maybeProceed
  rw [run_attempt, run_bind_ok (sendOutgoing_forwards codec p), run_bind_ok htimer]
  cases hahead : (advanced (StateMachine.drainQueue p.state)).1 with
  | error e =>
      simp only [hahead] at hproceed
      rw [run_bind_error hproceed, turn_of_error p.state none hahead]
      refine ⟨_, _, _, rfl, rfl, ⟨?_, ?_⟩⟩
      · simp [outgoing?_forwards, PlayerSend.outgoing?, handed]
      · simp [output?_forwards, PlayerSend.output?, Turn.outputs]
  | ok u =>
      simp only [hahead] at hproceed
      obtain ⟨deadline₂, round₂, htimer₂⟩ := refreshTimer_sets (β := β) (ε := ε) (ο := ο) now
        { p with
          state := StateMachine.drainQueue (advanced (StateMachine.drainQueue p.state)).2
          deadline, currentRound := round }
      obtain ⟨r, last, hlast, hnone, houts⟩ := finishIfPossible_finishes (β := β) (ε := ε) (ο := ο)
        { p with
          state := StateMachine.drainQueue (advanced (StateMachine.drainQueue p.state)).2
          deadline := deadline₂, currentRound := round₂ }
      rw [run_bind_ok hproceed, run_bind_ok (sendOutgoing_forwards codec _), run_bind_ok htimer₂,
        run_bind_ok hlast, turn_of_ok p.state none hahead]
      refine ⟨_, _, _, rfl, rfl, ⟨?_, ?_⟩⟩
      · simp [outgoing?_forwards, hnone, handed]
      · simp [output?_forwards, houts, Turn.outputs, handed]

/-- A call of the one handler or the other: a tick for `none`. -/
def serve (checks : Bool) (codec : Serde (Msg β) String) (now : Nat) :
    Option (IncomingMessage (Msg β)) → Call I SM β ε ο Unit
  | none => tick codec now
  | some m => handle checks codec now m

/-- The call gets through to the machine. -/
def Reaches (checks : Bool) (p : MpcPlayer I SM) : Option (IncomingMessage (Msg β)) → Prop
  | none => p.msgCount = 0
  | some m => m.message.sender ≠ p.index ∧ validReceiver p.index m.message.receiver = true ∧
      (addU16 checks p.msgCount 1).isOk = true

instance (checks : Bool) (p : MpcPlayer I SM) (msg : Option (IncomingMessage (Msg β))) :
    Decidable (p.Reaches checks msg) :=
  match msg with
  | none => inferInstanceAs (Decidable (_ = _))
  | some _ => inferInstanceAs (Decidable (_ ∧ _ ∧ _))

section
variable {checks : Bool} {p : MpcPlayer I SM} {msg : Option (IncomingMessage (Msg β))}

/-- What `handle_incoming` reports goes neither to the broker nor to the collector. -/
theorem handleIncoming_hands (m : IncomingMessage (Msg β)) (p : MpcPlayer I SM) :
    ∃ sends, (handleIncoming m : Call I SM β ε ο Unit).run p =
        (.ok (), { p with state := handed p.state (some m.message) }, sends) ∧
      sends.filterMap PlayerSend.outgoing? = [] ∧ sends.filterMap PlayerSend.output? = [] := by
  obtain ⟨sends, hrun, hsends⟩ := handleIncoming_run (ε := ε) (ο := ο) m p
  refine ⟨sends, hrun, ?_⟩
  obtain rfl | ⟨e, rfl⟩ := hsends <;> exact ⟨rfl, rfl⟩

/-- A turn is a message handed over and a turn with nothing handed over. -/
theorem turn_handed (k : SM) (m : Msg β) :
    (turn k (some m) : Turn SM β ε ο) =
      { turn (handed k (some m)) none with
        queued := queuedSince k (handed k (some m)) ++
          (turn (handed k (some m)) none).queued } := by
  unfold turn
  simp only [handed]
  split <;> simp [queuedSince_self]

/-- **A call that gets through is a turn of the loop.** -/
theorem serve_turns (hreach : p.Reaches checks msg) (codec : Serde (Msg β) String) (now : Nat) :
    ∃ q sends, (serve checks codec now msg : Call I SM β ε ο Unit).run p = (.ok (), q, sends) ∧
      q.state = (turn (ε := ε) (ο := ο) p.state (msg.map (·.message))).state ∧
      Renders p codec (turn p.state (msg.map (·.message))).sent
        (turn p.state (msg.map (·.message))).outputs sends := by
  cases msg with
  | none =>
      obtain ⟨r, q, sends, hrun, hstate, hrenders⟩ := maybeProceed_turns codec now p
      refine ⟨q, sends, ?_, hstate, hrenders⟩
      unfold serve tick
      simp only [run_bind, run_self, show p.msgCount = 0 from hreach, if_true, hrun, run_pure,
        List.nil_append, List.append_nil]
  | some m =>
      obtain ⟨hsender, hreceiver, hcount⟩ := hreach
      cases hadd : addU16 checks p.msgCount 1 with
      | error stop =>
          rw [hadd] at hcount
          cases hcount
      | ok count =>
          obtain ⟨reports, hhands, hnone, hnone'⟩ := handleIncoming_hands (ε := ε) (ο := ο) m
            { p with msgCount := count }
          obtain ⟨r, q, sends, hrun, hstate, houtgoing, houtputs⟩ := maybeProceed_turns codec now
            { p with msgCount := count, state := handed p.state (some m.message) }
          -- the error of `proceed` is reported behind the messages of the turn
          let late : List (PlayerSend I β ε ο) := match r with
            | .ok () => []
            | .error error => [.error { room := q.room, error, message := m }]
          refine ⟨q, reports ++ (sends ++ late), ?_, ?_, ?_, ?_⟩
          · unfold serve handle
            simp only [run_bind, run_self, hsender, hreceiver, if_false, if_true, hadd,
              run_orPanic_ok, run_modify, hhands, hrun, List.nil_append]
            cases r <;> rfl
          · rw [hstate, Option.map_some, turn_handed]
          · rw [Option.map_some, turn_handed]
            cases r <;> simp [late, hnone, houtgoing, PlayerSend.outgoing?]
          · rw [Option.map_some, turn_handed]
            cases r <;> simp [late, hnone', houtputs, PlayerSend.output?, Turn.outputs]

/-- Any other call leaves the player as it is and sends nothing. -/
theorem serve_of_not_reaches (hreach : ¬ p.Reaches checks msg) (codec : Serde (Msg β) String)
    (now : Nat) : ((serve checks codec now msg : Call I SM β ε ο Unit).run p).2 = (p, []) := by
  cases msg with
  | none =>
      unfold serve tick
      simp only [run_bind, run_self, show ¬ p.msgCount = 0 from hreach, if_false, run_pure,
        List.nil_append]
  | some m =>
      unfold serve handle
      simp only [run_bind, run_self, List.nil_append]
      split
      · rfl
      split
      · rename_i hsender hreceiver
        cases hcount : addU16 checks p.msgCount 1 with
        | error stop => rfl
        | ok count => exact absurd ⟨hsender, hreceiver, by rw [hcount]; rfl⟩ hreach
      · rfl

end

theorem serve_keeps (p : MpcPlayer I SM) (checks : Bool) (codec : Serde (Msg β) String)
    (now : Nat) (msg : Option (IncomingMessage (Msg β))) :
    Keeps (Same p) (Sends p msg) (serve checks codec now msg : Call I SM β ε ο Unit) := by
  cases msg with
  | none => exact tick_keeps p codec now
  | some m => exact handle_keeps p checks codec now m

/-! ## Runs -/

/-- A call a player has served. -/
structure Served (I SM β ε ο : Type) where
  before : MpcPlayer I SM
  msg : Option (IncomingMessage (Msg β))
  after : MpcPlayer I SM
  sends : List (PlayerSend I β ε ο)

/-- The calls of a run, each with the clock it reads; a panic ends the run. -/
def serveAll (checks : Bool) (codec : Serde (Msg β) String) (p : MpcPlayer I SM) :
    List (Nat × Option (IncomingMessage (Msg β))) → List (Served I SM β ε ο)
  | [] => []
  | (now, msg) :: rest =>
      let r := (serve checks codec now msg : Call I SM β ε ο Unit).run p
      { before := p, msg, after := r.2.1, sends := r.2.2 } ::
        if isPanic r.1 then [] else serveAll checks codec r.2.1 rest

/-- The player at the end of a run. -/
def lastOf (p : MpcPlayer I SM) : List (Served I SM β ε ο) → MpcPlayer I SM
  | [] => p
  | s :: rest => lastOf s.after rest

/-- What gets through to the machine in a run. -/
def heard (checks : Bool) (run : List (Served I SM β ε ο)) : List (Option (Msg β)) :=
  (run.filter fun s => s.before.Reaches checks s.msg).map fun s => s.msg.map (·.message)

namespace Served

/-- What `proceed` returned and left, in a call that got through. -/
def ahead (s : Served I SM β ε ο) : Except ε Unit × SM :=
  advanced (StateMachine.drainQueue (handed s.before.state (s.msg.map (·.message))))

/-- `proceed` failed in the call. -/
def Fails (checks : Bool) (s : Served I SM β ε ο) : Prop :=
  s.before.Reaches checks s.msg ∧ ∃ e, s.ahead.1 = .error e

theorem ahead_of_not_fails {checks : Bool} {s : Served I SM β ε ο}
    (hreach : s.before.Reaches checks s.msg) (h : ¬ s.Fails checks) : s.ahead.1 = .ok () := by
  cases hahead : s.ahead.1 with
  | error e => exact absurd ⟨hreach, e, hahead⟩ h
  | ok u => rfl

end Served

/-- A call is a turn of the loop, or nothing comes of it. -/
inductive Served.Turns (checks : Bool) (codec : Serde (Msg β) String) (s : Served I SM β ε ο) :
    Prop
  | turned (hreach : s.before.Reaches checks s.msg)
      (hstate : s.after.state =
        (turn (ε := ε) (ο := ο) s.before.state (s.msg.map (·.message))).state)
      (hrenders : Renders s.before codec (turn s.before.state (s.msg.map (·.message))).sent
        (turn s.before.state (s.msg.map (·.message))).outputs s.sends)
  | ignored (hreach : ¬ s.before.Reaches checks s.msg) (hafter : s.after = s.before)
      (hsends : s.sends = [])

/-- All told, the calls of a run have done what the loop does with what was heard. -/
structure Drives (checks : Bool) (codec : Serde (Msg β) String) (p : MpcPlayer I SM)
    (run : List (Served I SM β ε ο)) : Prop where
  state : (lastOf p run).state = driven p.state (heard checks run)
  renders : Renders p codec ((drive p.state (heard checks run)).flatMap Turn.sent)
    ((drive p.state (heard checks run)).flatMap Turn.outputs) (run.flatMap Served.sends)

section
variable {checks : Bool} {codec : Serde (Msg β) String}

omit [StateMachine SM β ε ο] in
theorem heard_cons (s : Served I SM β ε ο) (run : List (Served I SM β ε ο)) :
    heard checks (s :: run) =
      if s.before.Reaches checks s.msg then s.msg.map (·.message) :: heard checks run
      else heard checks run := by
  unfold heard
  rw [List.filter_cons]
  split
  · rename_i hreach
    rw [if_pos (of_decide_eq_true hreach), List.map_cons]
  · rename_i hreach
    rw [if_neg (of_decide_eq_false (Bool.eq_false_iff.mpr hreach))]

theorem drives_nil (p : MpcPlayer I SM) :
    Drives checks codec p ([] : List (Served I SM β ε ο)) :=
  ⟨rfl, ⟨rfl, rfl⟩⟩

theorem Drives.cons {s : Served I SM β ε ο} {run : List (Served I SM β ε ο)}
    (hs : s.Turns checks codec) (hsame : Same s.before s.after)
    (h : Drives checks codec s.after run) : Drives checks codec s.before (s :: run) := by
  cases hs with
  | turned hreach hstate hrenders =>
      obtain ⟨hlast, hrest⟩ := h
      rw [hstate] at hlast hrest
      constructor
      · rw [heard_cons, if_pos hreach]
        exact hlast
      · rw [heard_cons, if_pos hreach]
        exact hrenders.append hsame hrest
  | ignored hreach hafter hsends =>
      constructor
      · rw [heard_cons, if_neg hreach, ← hafter]
        exact h.state
      · rw [heard_cons, if_neg hreach, List.flatMap_cons, hsends, ← hafter]
        exact h.renders

/-- A single call. -/
theorem served_turns (p : MpcPlayer I SM) (now : Nat) (msg : Option (IncomingMessage (Msg β))) :
    let r := (serve checks codec now msg : Call I SM β ε ο Unit).run p
    Served.Turns checks codec { before := p, msg, after := r.2.1, sends := r.2.2 } := by
  intro r
  by_cases hreach : p.Reaches checks msg
  · obtain ⟨q, sends, hrun, hstate, hrenders⟩ := serve_turns hreach codec now
    have hr : r = (.ok (), q, sends) := hrun
    rw [hr]
    exact .turned hreach hstate hrenders
  · have hr : r.2 = (p, []) := serve_of_not_reaches hreach codec now
    rw [hr]
    exact .ignored hreach rfl rfl

variable (checks codec) in
theorem serveAll_forall (p : MpcPlayer I SM)
    (calls : List (Nat × Option (IncomingMessage (Msg β)))) :
    ∀ s ∈ (serveAll checks codec p calls : List (Served I SM β ε ο)),
      Same p s.before ∧ s.Turns checks codec := by
  induction calls generalizing p with
  | nil => simp [serveAll]
  | cons call rest ih =>
      obtain ⟨now, msg⟩ := call
      have hsame := (serve_keeps (ε := ε) (ο := ο) p checks codec now msg p (.refl p)).1
      intro s hs
      rcases List.mem_cons.mp hs with rfl | hs
      · exact ⟨.refl p, served_turns p now msg⟩
      · split at hs
        · cases hs
        · obtain ⟨⟨hinput, hroom, hindex⟩, hturns⟩ := ih _ s hs
          exact ⟨⟨hinput.trans hsame.1, hroom.trans hsame.2.1, hindex.trans hsame.2.2⟩, hturns⟩

variable (checks codec) in
/-- **A player drives its machine as the loop does.** -/
theorem serveAll_drives (p : MpcPlayer I SM)
    (calls : List (Nat × Option (IncomingMessage (Msg β)))) :
    Drives checks codec p (serveAll checks codec p calls : List (Served I SM β ε ο)) := by
  induction calls generalizing p with
  | nil => exact drives_nil p
  | cons call rest ih =>
      obtain ⟨now, msg⟩ := call
      have hsame := (serve_keeps (ε := ε) (ο := ο) p checks codec now msg p (.refl p)).1
      refine .cons (served_turns p now msg) hsame ?_
      split
      · exact drives_nil _
      · exact ih _

/-- What a player forwards in a run. -/
structure Forwards (checks : Bool) (codec : Serde (Msg β) String) (p : MpcPlayer I SM)
    (run : List (Served I SM β ε ο)) : Prop where
  /-- The machine is where the plain loop leaves it. -/
  state : (lastOf p run).state = driven p.state (heard checks run)
  /-- What went to the broker, with what is left in the queue, is what was ever
  queued, in order and each once. -/
  conserved : ∃ (sent : List (Msg β)) (texts : List String), sent.map codec.write = texts.map some ∧
    (run.flatMap Served.sends).filterMap PlayerSend.outgoing? =
      texts.map (fun message => { room := p.room, message }) ∧
    sent ++ StateMachine.messageQueue (lastOf p run).state =
      StateMachine.messageQueue p.state ++ (drive p.state (heard checks run)).flatMap Turn.queued
  /-- The queue is empty after a call that got through and in which `proceed`
  did not fail. -/
  emptied : ∀ s ∈ run, s.before.Reaches checks s.msg → ¬ s.Fails checks →
    StateMachine.messageQueue s.after.state = []
  /-- A player's own messages and those for another leave it untouched. -/
  untouched : ∀ s ∈ run, ∀ m, s.msg = some m →
    (m.message.sender = p.index ∨ ∃ j, m.message.receiver = some j ∧ j ≠ p.index) →
    s.after = s.before ∧ s.sends = []
  once : ((run.flatMap Served.sends).filterMap PlayerSend.output?).length ≤ 1
  /-- The output goes out in a call that got through, in which `proceed` did not
  fail and after which the machine is finished and yields it, and in no other. -/
  output : ∀ s ∈ run, ∀ out, out ∈ s.sends.filterMap PlayerSend.output? ↔
    s.before.Reaches checks s.msg ∧ ¬ s.Fails checks ∧
    StateMachine.isFinished (StateMachine.drainQueue s.ahead.2) = true ∧
    (StateMachine.pickOutput (StateMachine.drainQueue s.ahead.2)).1 = some (.ok out.output) ∧
    out.input = p.input

/-- **A player forwards what its machine queued.** The machine is any that keeps its
queue as `round_based` says and that yields its output once, and what it
queues in the run serialises. -/
theorem serveAll_forwards (hq : Queues SM) (p : MpcPlayer I SM)
    (honce : ∀ n k, Evolves p.state n k → n ≤ 1)
    (calls : List (Nat × Option (IncomingMessage (Msg β))))
    (hcodec : ∀ m ∈ StateMachine.messageQueue p.state ++
        (drive p.state (heard checks (serveAll checks codec p calls))).flatMap Turn.queued,
      (codec.write m).isSome = true) :
    Forwards checks codec p (serveAll checks codec p calls) := by
  obtain ⟨hstate, houtgoing, houtputs⟩ := serveAll_drives checks codec p calls
  have hturns := serveAll_forall checks codec p calls
  have hconserved := drive_conserves hq p.state (heard checks (serveAll checks codec p calls))
  constructor
  case state => exact hstate
  case conserved =>
    refine ⟨_, _, ?_, houtgoing, by rw [hstate, hconserved]⟩
    -- nothing is lost in writing, as the codec takes all that was queued
    rw [List.map_filterMap_some_eq_filter_map_isSome, eq_comm, List.filter_eq_self]
    intro text htext
    obtain ⟨m, hm, rfl⟩ := List.mem_map.mp htext
    exact hcodec m (hconserved ▸ List.mem_append_left _ hm)
  case emptied =>
    intro s hs hreach hfails
    cases (hturns s hs).2 with
    | turned _ hafter _ => rw [hafter, turn_empties hq (Served.ahead_of_not_fails hreach hfails)]
    | ignored hnot _ _ => exact absurd hreach hnot
  case untouched =>
    intro s hs m hm hother
    obtain ⟨⟨-, -, hindex⟩, hturned⟩ := hturns s hs
    cases hturned with
    | turned hreach _ _ =>
        rw [hm] at hreach
        obtain ⟨hsender, hreceiver, -⟩ := hreach
        rw [hindex] at hsender hreceiver
        -- the same two guards as in the handler, read from its index
        rcases hother with hown | ⟨j, hj, hne⟩
        · exact absurd hown hsender
        · rw [hj] at hreceiver
          exact absurd (of_decide_eq_true hreceiver) hne
    | ignored _ hafter hsends => exact ⟨hafter, hsends⟩
  case once =>
    rw [houtputs, List.length_map]
    exact honce _ _ (drive_evolves p.state _)
  case output =>
    intro s hs out
    obtain ⟨⟨hinput, -, -⟩, hturned⟩ := hturns s hs
    cases hturned with
    | turned hreach _ hrenders =>
        rw [hrenders.outputs]
        constructor
        · intro h
          obtain ⟨o, ho, rfl⟩ := List.mem_map.mp h
          obtain ⟨hok, hfinished, hpick⟩ := mem_turn_outputs.mp ho
          exact ⟨hreach, fun ⟨_, e, he⟩ => (by cases hok.symm.trans he), hfinished, hpick, hinput⟩
        · rintro ⟨-, hfails, hfinished, hpick, hin⟩
          refine List.mem_map.mpr ⟨out.output, mem_turn_outputs.mpr
            ⟨Served.ahead_of_not_fails hreach hfails, hfinished, hpick⟩, ?_⟩
          rw [hinput, ← hin]
    | ignored hnot _ hsends =>
        rw [hsends]
        exact ⟨fun h => (List.not_mem_nil h).elim, fun h => absurd h.1 hnot⟩

end

end MpcPlayer

namespace Sample

open MpcPlayer

theorem queues_rounds {ο : Type} (output : Rounds → ο) :
    @Queues Rounds UInt16 StageError ο (Rounds.machine output) := by
  let _ := Rounds.machine output
  refine ⟨fun k m => ?_, fun k => rfl, fun k => List.prefix_append _ _, fun k => ?_⟩
  · show k.queue <+: (k.handleIncoming m).2.queue
    unfold Rounds.handleIncoming
    split
    · exact List.prefix_refl _
    · split <;> exact List.prefix_refl _
  · show (k.pickOutput output).2.queue = k.queue
    unfold Rounds.pickOutput
    split
    · rfl
    · split <;> rfl

/-- Bob's player in a keygen with Alice. -/
def bobsPlayer (k : Rounds) : PlayerKG (crates keygen) :=
  .new (keygenOf "k1" [.alice, .bob] 1) "k1@73ee5cd6c20e0c08" 2 k

/-- The message of the first round, of Alice, `1`, or of Bob, `2`. -/
def firstOf (sender : UInt16) : IncomingKG (crates keygen) :=
  let w := fromAlice "k1@73ee5cd6c20e0c08"
    { sender, receiver := none, body := keygenBodyText 1 }
  { room := w.room, wireMessage := { w with origin := 0 }
    message := { sender, receiver := none, body := (1 : UInt16) } }

/-- A tick, Bob's own message, Alice's message, another tick. -/
def bobsCalls : List (Nat × Option (IncomingKG (crates keygen))) :=
  [(0, none), (0, some (firstOf 2)), (0, some (firstOf 1)), (0, none)]

theorem bob_forwards :
    Forwards false (crates keygen).msgKG (bobsPlayer (Rounds.new 2 1 2 1))
      (serveAll false (crates keygen).msgKG (bobsPlayer (Rounds.new 2 1 2 1)) bobsCalls) :=
  have hqueues : Queues (crates keygen).Keygen := queues_rounds _
  serveAll_forwards hqueues _ (fun n k => (yieldOnce keygen).keygen _ k n) bobsCalls
    (by decide)

/-- A machine that has queued its first message when it is made, and then hears
of itself: the call sends nothing, and the message stays in the queue. -/
theorem own_message_leaves_queue :
    ¬ ∀ s ∈ serveAll false (crates keygen).msgKG
        (bobsPlayer ((Rounds.new 2 1 2 1).proceed).2) [(0, some (firstOf 2))],
      ¬ s.Fails false → StateMachine.messageQueue s.after.state = [] := by
  intro h
  have hqueue := h _ (List.mem_singleton.mpr rfl) fun hfails => absurd rfl hfails.1.1
  cases hqueue

end Sample

end MpcServer

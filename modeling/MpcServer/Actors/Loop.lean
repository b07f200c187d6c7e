import MpcServer.Actors.Yields

/-!
# A plain loop on a state machine

Hand it a message, send on what it queued, let it proceed, send on what it
queued, pick the output. Nothing that was queued is lost or sent twice.
-/

namespace MpcServer

variable {SM β ε ο : Type} [StateMachine SM β ε ο]

variable (SM) in
/-- What `round_based` says of the queue: messages come into it in
`handle_incoming` and `proceed` only, behind what is there, and draining
leaves nothing. -/
structure Queues : Prop where
  handled : ∀ (k : SM) (m : Msg β), StateMachine.messageQueue k <+:
    StateMachine.messageQueue (StateMachine.handleIncoming k m).2
  drained : ∀ k : SM, StateMachine.messageQueue (StateMachine.drainQueue k) = []
  proceeded : ∀ k : SM, StateMachine.messageQueue k <+:
    StateMachine.messageQueue (StateMachine.proceed k).2
  picked : ∀ k : SM, StateMachine.messageQueue (StateMachine.pickOutput k).2 =
    StateMachine.messageQueue k

/-- What came into the queue on the way from `k` to `k'`. -/
def queuedSince (k k' : SM) : List (Msg β) :=
  (StateMachine.messageQueue k').drop (StateMachine.messageQueue k).length

theorem append_queuedSince {k k' : SM}
    (h : StateMachine.messageQueue k <+: StateMachine.messageQueue k') :
    StateMachine.messageQueue k ++ queuedSince k k' = StateMachine.messageQueue k' :=
  (List.prefix_append_drop h).symm

theorem queuedSince_self (k : SM) : queuedSince k k = [] := List.drop_length

/-- The message is handed over; a tick, `none`, hands over nothing. -/
def handed (k : SM) : Option (Msg β) → SM
  | none => k
  | some m => (StateMachine.handleIncoming k m).2

/-- A machine that wants to proceed proceeds. -/
def advanced (k : SM) : Except ε Unit × SM :=
  if StateMachine.wantsToProceed k then StateMachine.proceed k else (.ok (), k)

/-- The output, where the machine is finished and has one. -/
def finished (k : SM) : Option ο × SM :=
  if StateMachine.isFinished k then
    ((StateMachine.pickOutput k).1.bind Except.toOption, (StateMachine.pickOutput k).2)
  else (none, k)

/-- A turn of the loop: where it left the machine, what the machine queued in
it, what was sent on, and the error of `proceed` or the output. -/
structure Turn (SM β ε ο : Type) where
  state : SM
  queued : List (Msg β)
  sent : List (Msg β)
  outcome : Except ε (Option ο)

/-- One call of the loop: what is handed in, what goes out, and how it ends. -/
def turn (k : SM) (msg : Option (Msg β)) : Turn SM β ε ο :=
  let fed := handed k msg
  let idle := StateMachine.drainQueue fed
  let ahead := advanced idle
  let queued := queuedSince k fed ++ queuedSince idle ahead.2
  match ahead.1 with
  | .error e =>
      { state := ahead.2, queued, sent := StateMachine.messageQueue fed, outcome := .error e }
  | .ok () =>
      let last := finished (StateMachine.drainQueue ahead.2)
      { state := last.2
        queued
        sent := StateMachine.messageQueue fed ++ StateMachine.messageQueue ahead.2
        outcome := .ok last.1 }

theorem turn_of_error (k : SM) (msg : Option (Msg β)) {e : ε}
    (h : (advanced (StateMachine.drainQueue (handed k msg))).1 = .error e) :
    (turn k msg : Turn SM β ε ο) =
      { state := (advanced (StateMachine.drainQueue (handed k msg))).2
        queued := queuedSince k (handed k msg) ++
          queuedSince (StateMachine.drainQueue (handed k msg))
            (advanced (StateMachine.drainQueue (handed k msg))).2
        sent := StateMachine.messageQueue (handed k msg)
        outcome := .error e } := by
  unfold turn
  simp only [h]

theorem turn_of_ok (k : SM) (msg : Option (Msg β))
    (h : (advanced (StateMachine.drainQueue (handed k msg))).1 = .ok ()) :
    (turn k msg : Turn SM β ε ο) =
      { state := (finished (StateMachine.drainQueue
          (advanced (StateMachine.drainQueue (handed k msg))).2)).2
        queued := queuedSince k (handed k msg) ++
          queuedSince (StateMachine.drainQueue (handed k msg))
            (advanced (StateMachine.drainQueue (handed k msg))).2
        sent := StateMachine.messageQueue (handed k msg) ++
          StateMachine.messageQueue (advanced (StateMachine.drainQueue (handed k msg))).2
        outcome := .ok (finished (StateMachine.drainQueue
          (advanced (StateMachine.drainQueue (handed k msg))).2)).1 } := by
  unfold turn
  simp only [h]

/-- The turns the loop makes with the messages and ticks it gets. -/
def drive (k : SM) : List (Option (Msg β)) → List (Turn SM β ε ο)
  | [] => []
  | msg :: rest => turn k msg :: drive (turn k msg).state rest

/-- Where the loop leaves the machine. -/
def driven (k : SM) : List (Option (Msg β)) → SM
  | [] => k
  | msg :: rest => driven (turn k msg).state rest

/-- The output of a turn, if there is one. -/
def Turn.outputs (t : Turn SM β ε ο) : List ο :=
  match t.outcome with
  | .ok out => out.toList
  | .error _ => []

theorem messageQueue_handed (hq : Queues SM) (k : SM) (msg : Option (Msg β)) :
    StateMachine.messageQueue k ++ queuedSince k (handed k msg) =
      StateMachine.messageQueue (handed k msg) := by
  cases msg with
  | none => exact append_queuedSince (List.prefix_refl _)
  | some m => exact append_queuedSince (hq.handled k m)

theorem messageQueue_advanced (hq : Queues SM) (k : SM) :
    queuedSince (StateMachine.drainQueue k) (advanced (StateMachine.drainQueue k)).2 =
      StateMachine.messageQueue (advanced (StateMachine.drainQueue k)).2 := by
  have happend : StateMachine.messageQueue (StateMachine.drainQueue k) ++
      queuedSince (StateMachine.drainQueue k) (advanced (StateMachine.drainQueue k)).2 =
      StateMachine.messageQueue (advanced (StateMachine.drainQueue k)).2 := by
    refine append_queuedSince ?_
    unfold advanced
    split
    · exact hq.proceeded _
    · exact List.prefix_refl _
  rwa [hq.drained, List.nil_append] at happend

theorem messageQueue_finished (hq : Queues SM) (k : SM) :
    StateMachine.messageQueue (finished k).2 = StateMachine.messageQueue k := by
  unfold finished
  split
  · exact hq.picked k
  · rfl

/-- What a turn sends on and leaves in the queue is what was in the queue and
what was queued in the turn. -/
theorem turn_conserves (hq : Queues SM) (k : SM) (msg : Option (Msg β)) :
    (turn k msg).sent ++ StateMachine.messageQueue (turn k msg).state =
      StateMachine.messageQueue k ++ (turn k msg).queued := by
  have hfed := messageQueue_handed hq k msg
  have hahead := messageQueue_advanced hq (handed k msg)
  unfold turn
  simp only
  split
  · simp only [← hfed, hahead, List.append_assoc]
  · simp only [messageQueue_finished hq, hq.drained, ← hfed, hahead, List.append_assoc,
      List.append_nil]

/-- A turn in which `proceed` does not fail leaves the queue empty. -/
theorem turn_empties (hq : Queues SM) {k : SM} {msg : Option (Msg β)}
    (h : (advanced (StateMachine.drainQueue (handed k msg))).1 = .ok ()) :
    StateMachine.messageQueue (turn k msg).state = [] := by
  rw [turn_of_ok k msg h, messageQueue_finished hq, hq.drained]

theorem finished_eq_some {k : SM} {o : ο} :
    (finished k).1 = some o ↔
      StateMachine.isFinished k = true ∧ (StateMachine.pickOutput k).1 = some (.ok o) := by
  unfold finished
  split
  · rename_i hfinished
    rcases (StateMachine.pickOutput k).1 with _ | _ | o' <;> simp [hfinished, Except.toOption]
  · rename_i hfinished
    simp [hfinished]

/-- A turn outputs what the machine yields when it is finished after `proceed`. -/
theorem mem_turn_outputs {k : SM} {msg : Option (Msg β)} {o : ο} :
    o ∈ (turn k msg).outputs ↔
      (advanced (StateMachine.drainQueue (handed k msg))).1 = .ok () ∧
      StateMachine.isFinished (StateMachine.drainQueue
        (advanced (StateMachine.drainQueue (handed k msg))).2) = true ∧
      (StateMachine.pickOutput (StateMachine.drainQueue
        (advanced (StateMachine.drainQueue (handed k msg))).2)).1 = some (.ok o) := by
  cases hahead : (advanced (StateMachine.drainQueue (handed k msg))).1 with
  | error e => simp [turn_of_error k msg hahead, Turn.outputs]
  | ok u =>
      simp only [turn_of_ok k msg hahead, Turn.outputs, Option.mem_toList, finished_eq_some,
        true_and]

/-- **The loop loses and repeats nothing.** -/
theorem drive_conserves (hq : Queues SM) (k : SM) (msgs : List (Option (Msg β))) :
    (drive k msgs).flatMap Turn.sent ++ StateMachine.messageQueue (driven k msgs) =
      StateMachine.messageQueue k ++ (drive k msgs).flatMap Turn.queued := by
  induction msgs generalizing k with
  | nil => simp [drive, driven]
  | cons msg rest ih =>
      simp only [drive, driven, List.flatMap_cons, List.append_assoc]
      rw [ih, ← List.append_assoc, turn_conserves hq, List.append_assoc]

theorem finished_evolves (k : SM) :
    Evolves k (finished k).1.toList.length (finished k).2 := by
  unfold finished
  split
  · cases hpick : (StateMachine.pickOutput k).1 with
    | none => exact .picked .refl fun o h => by cases hpick.symm.trans h
    | some out =>
        cases out with
        | error e => exact .picked .refl fun o h => by cases hpick.symm.trans h
        | ok o => exact .yielded .refl hpick
  · exact .refl

/-- A turn is made of the machine's operations, and what it outputs `pick_output`
has yielded. -/
theorem turn_evolves (k : SM) (msg : Option (Msg β)) :
    Evolves k (turn k msg).outputs.length (turn k msg).state := by
  have hfed : Evolves k 0 (handed k msg) := by
    cases msg with
    | none => exact .refl
    | some m => exact .handled m .refl
  have hahead : Evolves k 0 (advanced (StateMachine.drainQueue (handed k msg))).2 := by
    unfold advanced
    split
    · exact .proceeded (.drained hfed)
    · exact .drained hfed
  unfold turn
  simp only
  split
  · exact hahead
  · have hlast := (Evolves.drained hahead).trans (finished_evolves _)
    rwa [Nat.zero_add] at hlast

theorem drive_evolves (k : SM) (msgs : List (Option (Msg β))) :
    Evolves k ((drive k msgs).flatMap Turn.outputs).length (driven k msgs) := by
  induction msgs generalizing k with
  | nil => exact .refl
  | cons msg rest ih =>
      simp only [drive, driven, List.flatMap_cons, List.length_append]
      exact (turn_evolves k msg).trans (ih _)

end MpcServer

import MpcServer.Actors.SignerRun
import MpcServer.Actors.Identities

/-!
# Steps in which nothing fails

A handler call fails when it panics, when a state machine's `proceed` or
`pick_output` errs in it, or when no signature comes out. Whether it does can
be told from the state before the call. As long as no step fails the
coordinator and every runner stay up.
-/

namespace MpcServer

open Rust Rust.Method Machine

variable {C : Crates}

/-- The call returns, and nothing fails in it. -/
def EndsWell {ε σ ω α : Type} (failed : ω → Bool) (r : Except (Stop ε) α) (_ : σ)
    (os : List ω) : Prop :=
  isPanic r = false ∧ ∀ s ∈ os, failed s = false

/-! ## Players -/

namespace MpcPlayer

section
variable {I SM β ε ο : Type} [StateMachine SM β ε ο]

/-- The state machine after the player let it proceed, if it wanted to. -/
def proceeded (k : SM) : SM :=
  let sent := StateMachine.drainQueue k
  StateMachine.drainQueue (if StateMachine.wantsToProceed sent then (StateMachine.proceed sent).2
    else sent)

/-- `pick_output` is no error. -/
def Picks (x : Option (Except ε ο)) : Prop :=
  match x with
  | some (.error _) => False
  | _ => True

instance (x : Option (Except ε ο)) : Decidable (Picks x) := by
  unfold Picks
  split <;> infer_instance

/-- If the state machine wants to proceed it can, and if it is finished then it
hands its output over. -/
def Proceeds (k : SM) : Prop :=
  (StateMachine.wantsToProceed (StateMachine.drainQueue k) = true →
    (StateMachine.proceed (StateMachine.drainQueue k)).1.isOk = true) ∧
  (StateMachine.isFinished (proceeded k) = true → Picks (StateMachine.pickOutput (proceeded k)).1)

instance (k : SM) : Decidable (Proceeds k) := by
  unfold Proceeds
  infer_instance

/-- The player comes through the call, a tick for `none`. -/
def Manages (checks : Bool) (p : MpcPlayer I SM) : Option (IncomingMessage (Msg β)) → Prop
  | none => p.msgCount = 0 → Proceeds p.state
  | some m => m.message.sender ≠ p.index → validReceiver p.index m.message.receiver = true →
      (addU16 checks p.msgCount 1).isOk = true ∧
        Proceeds (StateMachine.handleIncoming p.state m.message).2

instance (checks : Bool) (p : MpcPlayer I SM) (msg : Option (IncomingMessage (Msg β))) :
    Decidable (p.Manages checks msg) := by
  unfold Manages
  split <;> infer_instance

/-- A failure is what a player only logs. -/
def isFailure : PlayerSend I β ε ο → Bool
  | .failed _ => true
  | _ => false

theorem sendOutgoing_run (codec : Serde (Msg β) String) (p : MpcPlayer I SM) :
    ∃ os, (sendOutgoing codec : Call I SM β ε ο Unit).run p =
        (.ok (), { p with state := StateMachine.drainQueue p.state }, os) ∧
      ∀ s ∈ os, isFailure s = false := by
  refine ⟨_, rfl, fun s hs => ?_⟩
  obtain ⟨text, -, rfl⟩ := List.mem_map.mp hs
  rfl

theorem refreshTimer_run (now : Nat) (p : MpcPlayer I SM) :
    ∃ q, (refreshTimer now : Call I SM β ε ο Unit).run p = (.ok (), q, []) ∧
      q.state = p.state := by
  unfold refreshTimer
  simp only [run_bind, run_self]
  split
  · exact ⟨_, rfl, rfl⟩
  · exact ⟨_, rfl, rfl⟩

theorem proceedIfNeeded_run {p : MpcPlayer I SM}
    (h : StateMachine.wantsToProceed p.state = true →
      (StateMachine.proceed p.state).1.isOk = true) :
    ∃ q, (proceedIfNeeded : Call I SM β ε ο Unit).run p = (.ok (), q, []) ∧
      q.state = if StateMachine.wantsToProceed p.state then (StateMachine.proceed p.state).2
        else p.state := by
  unfold proceedIfNeeded
  simp only [run_bind, run_self]
  split
  · rename_i hwants
    have hok := h hwants
    cases hr : (StateMachine.proceed p.state).1 with
    | ok _ => exact ⟨_, rfl, rfl⟩
    | error e =>
        rw [hr] at hok
        cases hok
  · exact ⟨_, rfl, rfl⟩

theorem finishIfPossible_run {p : MpcPlayer I SM}
    (h : StateMachine.isFinished p.state = true → Picks (StateMachine.pickOutput p.state).1) :
    ∃ q os, (finishIfPossible : Call I SM β ε ο Unit).run p = (.ok (), q, os) ∧
      ∀ s ∈ os, isFailure s = false := by
  unfold finishIfPossible
  simp only [run_bind, run_self]
  split
  · rename_i hfinished
    have hpicks := h hfinished
    simp only [run_bind, run_modify]
    cases hr : (StateMachine.pickOutput p.state).1 with
    | none => exact ⟨_, [], rfl, by simp⟩
    | some out =>
        cases out with
        | ok result => exact ⟨_, [_], rfl, by simp [isFailure]⟩
        | error e =>
            rw [hr] at hpicks
            exact hpicks.elim
  · exact ⟨_, [], rfl, by simp⟩

theorem maybeProceed_run {p : MpcPlayer I SM} (h : Proceeds p.state)
    (codec : Serde (Msg β) String) (now : Nat) :
    ∃ q os, (maybeProceed codec now : Call I SM β ε ο Unit).run p = (.ok (), q, os) ∧
      ∀ s ∈ os, isFailure s = false := by
  obtain ⟨hproceed, hpick⟩ := h
  obtain ⟨os₁, h₁, hos₁⟩ := sendOutgoing_run codec p
  obtain ⟨p₂, h₂, hstate₂⟩ := refreshTimer_run (β := β) (ε := ε) (ο := ο) now
    { p with state := StateMachine.drainQueue p.state }
  obtain ⟨p₃, h₃, hstate₃⟩ := proceedIfNeeded_run (β := β) (p := p₂) (by rwa [hstate₂])
  obtain ⟨os₄, h₄, hos₄⟩ := sendOutgoing_run codec p₃
  obtain ⟨p₅, h₅, hstate₅⟩ := refreshTimer_run (β := β) (ε := ε) (ο := ο) now
    { p₃ with state := StateMachine.drainQueue p₃.state }
  have hstate : p₅.state = proceeded p.state := by
    rw [hstate₅]
    simp only [hstate₃, hstate₂]
    rfl
  obtain ⟨q, os₆, h₆, hos₆⟩ := finishIfPossible_run (β := β) (p := p₅) (by rwa [hstate])
  unfold maybeProceed
  rw [run_bind_ok h₁, run_bind_ok h₂, run_bind_ok h₃, run_bind_ok h₄, run_bind_ok h₅]
  simp only [run_bind, run_attempt, h₆, run_pure]
  refine ⟨_, _, rfl, fun s hs => ?_⟩
  simp only [List.nil_append, List.append_nil, List.mem_append] at hs
  rcases hs with hs | hs | hs
  · exact hos₁ s hs
  · exact hos₄ s hs
  · exact hos₆ s hs

variable {p : MpcPlayer I SM}

theorem tick_endsWell {checks : Bool} (h : p.Manages checks none) (codec : Serde (Msg β) String)
    (now : Nat) : Ends (tick codec now : Call I SM β ε ο Unit) p (EndsWell isFailure) := by
  unfold tick
  refine .bind_ok (run_self p) ?_
  split
  · rename_i hfirst
    obtain ⟨q, os, hrun, hos⟩ := maybeProceed_run (h hfirst) codec now
    refine .bind_ok (a := .ok ()) (o := os) ?_ (.of_run (run_pure () q) ⟨rfl, ?_⟩)
    · rw [run_attempt, hrun]
    · simpa using hos
  · exact .of_run (run_pure () p) ⟨rfl, by simp⟩

theorem handle_endsWell {checks : Bool} {m : IncomingMessage (Msg β)}
    (h : p.Manages checks (some m)) (codec : Serde (Msg β) String) (now : Nat) :
    Ends (handle checks codec now m : Call I SM β ε ο Unit) p (EndsWell isFailure) := by
  unfold handle
  refine .bind_ok (run_self p) ?_
  split
  · exact .of_run (run_pure () p) ⟨rfl, by simp⟩
  split
  · rename_i hother hreceiver
    obtain ⟨hcount, hproceeds⟩ := h hother hreceiver
    cases hadd : addU16 checks p.msgCount 1 with
    | error stop =>
        rw [hadd] at hcount
        cases hcount
    | ok count =>
        refine .bind_ok (run_orPanic_ok count p) (.bind_ok (run_modify _ p) ?_)
        obtain ⟨os₁, h₁, hsends⟩ := handleIncoming_run (ε := ε) (ο := ο) m
          { p with msgCount := count }
        have hos₁ : ∀ s ∈ os₁, isFailure s = false := by
          obtain rfl | ⟨e, rfl⟩ := hsends
          · simp
          · simp [isFailure]
        obtain ⟨q, os₂, h₂, hos₂⟩ := maybeProceed_run
          (p := { p with
            msgCount := count
            state := (StateMachine.handleIncoming p.state m.message).2 }) hproceeds codec now
        refine .bind_ok h₁ (.bind_ok (a := .ok ()) (o := os₂) ?_
          (.of_run (run_pure () q) ⟨rfl, fun s hs => ?_⟩))
        · rw [run_attempt, h₂]
        · simp only [List.nil_append, List.append_nil, List.mem_append] at hs
          exact hs.elim (hos₁ s) (hos₂ s)
  · exact .of_run (run_pure () p) ⟨rfl, by simp⟩

end

end MpcPlayer

/-! ## Signers -/

namespace Signer

/-- The signing accepts the task. -/
def Accepts (s : Signer C) : Prop :=
  (C.signManualNew s.task.message s.task.completedOfflineStage).isSome = true

instance (s : Signer C) : Decidable s.Accepts := inferInstanceAs (Decidable (_ = true))

/-- When the signer holds all the partial signatures it needs, a signature comes out. -/
def Completes (s : Signer C) : Prop :=
  match C.signManualNew s.task.message s.task.completedOfflineStage with
  | none => False
  | some (state, _) =>
      s.partialSigs.length = s.task.t → (C.complete state s.partialSigs).isSome = true

instance (s : Signer C) : Decidable s.Completes := by
  unfold Completes
  split <;> infer_instance

/-- The signer comes through the call, `started` for `none`. -/
def Manages (s : Signer C) : Option (IncomingS C) → Prop
  | none => s.Accepts
  | some m => m.message.sender ≠ s.task.index → (s.push m.message.body).Completes

instance (s : Signer C) (msg : Option (IncomingS C)) : Decidable (s.Manages msg) := by
  unfold Manages
  split <;> infer_instance

/-- A failure is what a signer only logs. -/
def isFailure : SignerSend C → Bool
  | .failed => true
  | _ => false

theorem started_endsWell (s : Signer C) : Ends started s (EndsWell isFailure) := by
  obtain ⟨sends, hrun, hsends⟩ := s.started_run
  refine .of_run hrun ⟨rfl, ?_⟩
  obtain rfl | ⟨m, rfl⟩ := hsends
  · simp
  · simp [isFailure]

theorem verdict_of_completes {s : Signer C} (h : s.Completes) :
    ∀ x ∈ s.verdict, isFailure x = false := by
  unfold Completes at h
  unfold verdict
  cases hnew : C.signManualNew s.task.message s.task.completedOfflineStage with
  | none =>
      rw [hnew] at h
      exact h.elim
  | some x =>
      have hcompletes : s.partialSigs.length = s.task.t →
          (C.complete x.1 s.partialSigs).isSome = true := by
        rw [hnew] at h
        exact h
      by_cases hlength : s.partialSigs.length = s.task.t
      · obtain ⟨signature, hcomplete⟩ := Option.isSome_iff_exists.mp (hcompletes hlength)
        simp [hlength, hcomplete, isFailure]
      · simp [hlength]

theorem handle_endsWell {s : Signer C} {m : IncomingS C} (h : s.Manages (some m)) :
    Ends (handle m) s (EndsWell isFailure) := by
  unfold Ends
  rw [handle_run]
  split
  · exact ⟨rfl, by simp⟩
  · exact ⟨rfl, verdict_of_completes (h ‹_›)⟩

end Signer

/-! ## The coordinator -/

namespace Coordinator

/-- The check of an envelope reads the group's own index only where there is one. -/
def Examines (c : Coordinator C) (amb : Ambient) (msg : Arrival) : Prop :=
  isPanic (validSenderAndReceiver c amb msg) = false

instance (c : Coordinator C) (amb : Ambient) (msg : Arrival) : Decidable (c.Examines amb msg) :=
  inferInstanceAs (Decidable (_ = false))

/-- An envelope from the broker does not stop the coordinator. -/
def ManagesIncoming (c : Coordinator C) (amb : Ambient) (msg : Arrival) : Prop :=
  (byteSlice c.pkStr 2 10).isOk = true ∧ c.Examines amb msg

instance (c : Coordinator C) (amb : Ambient) (msg : Arrival) :
    Decidable (c.ManagesIncoming amb msg) :=
  inferInstanceAs (Decidable (_ ∧ _))

/-- A retried message does not. -/
def ManagesRetry (c : Coordinator C) (amb : Ambient) (m : RetryMessage) : Prop :=
  (addU16 C.overflowChecks m.attempts 1).isOk = true ∧
    (m.checkPassed = false → c.Examines amb m.message)

instance (c : Coordinator C) (amb : Ambient) (m : RetryMessage) :
    Decidable (c.ManagesRetry amb m) :=
  inferInstanceAs (Decidable (_ ∧ _))

/-- A request begins its session. -/
def Begins (c : Coordinator C) (ctx : Ctx) : Request → Prop
  | .keygen req => ∃ group i state, c.BeginsKeygen req group i state
  | .sign req => ∃ share group subgroup sL i state, c.FindsGroups req ctx share group subgroup ∧
      FindsParticipants req share group sL ∧ BeginsOffline share group subgroup sL i state

theorem Routed.stays_up {c : Coordinator C} {msg : Arrival} {initTs : Nat} {attempts : UInt16}
    {f : Fate} (h : Routed c msg initTs attempts f)
    (hadd : (addU16 C.overflowChecks attempts 1).isOk = true) : f.panics = false := by
  cases h with
  | delivered _ => rfl
  | retried _ _ => rfl
  | panicked _ herror =>
      rw [herror] at hadd
      cases hadd

theorem Incoming.stays_up {c : Coordinator C} {ctx : Ctx} {msg : Arrival} {f : Fate}
    (h : Incoming c ctx msg f) (hm : c.ManagesIncoming ctx.toAmbient msg) : f.panics = false := by
  obtain ⟨hslice, hexamines⟩ := hm
  cases h with
  | sliced herror =>
      rw [herror] at hslice
      cases hslice
  | unwrapped hpanic =>
      rw [Examines, hpanic] at hexamines
      cases hexamines
  | passed _ hr =>
      refine hr.stays_up ?_
      have hsmall : ¬ (C.overflowChecks = true ∧ 2 ^ 16 ≤ (0 : UInt16).toNat + (1 : UInt16).toNat) := by
        simp
      rw [addU16, if_neg hsmall]
      rfl
  | _ => rfl

theorem Retried.stays_up {c : Coordinator C} {ctx : Ctx} {m : RetryMessage} {f : Fate}
    (h : Retried c ctx m f) (hm : c.ManagesRetry ctx.toAmbient m) : f.panics = false := by
  obtain ⟨hadd, hexamines⟩ := hm
  cases h with
  | checked _ hr => exact hr.stays_up hadd
  | passed _ _ hr => exact hr.stays_up hadd
  | unwrapped hunchecked hpanic =>
      have := hexamines hunchecked
      rw [Examines, hpanic] at this
      cases this
  | failed _ _ _ => rfl
  | overflowed _ _ herror =>
      rw [herror] at hadd
      cases hadd

section
variable {c c' : Coordinator C} {ctx : Ctx} {r : Except (Stop String) Unit} {os : List (Effect C)}

theorem KeygenRequested.begins_iff {req : KeygenRequest}
    (h : KeygenRequested c req ctx r c' os) : c.Begins ctx (.keygen req) ↔ r.isOk = true := by
  cases h with
  | refused hnone => exact ⟨fun ⟨_, _, _, h⟩ => absurd h (hnone _ _ _), fun h => by cases h⟩
  | began hbegins _ => exact ⟨fun _ => rfl, fun _ => ⟨_, _, _, hbegins⟩⟩

theorem SignRequested.begins_iff {req : SignRequest} (h : SignRequested c req ctx r c' os) :
    c.Begins ctx (.sign req) ↔ r.isOk = true := by
  cases h with
  | refused hnone =>
      exact ⟨fun ⟨_, _, _, _, _, _, h, _⟩ => absurd h (hnone _ _ _), fun h => by cases h⟩
  | mismatched hgroups _ hnone =>
      refine ⟨fun ⟨_, _, _, _, _, _, hgroups', hparts, _⟩ => ?_, fun h => by cases h⟩
      obtain ⟨rfl, rfl, rfl⟩ := hgroups.unique hgroups'
      exact absurd hparts (hnone _)
  | failed hgroups _ hparts hnone =>
      refine ⟨fun ⟨_, _, _, _, _, _, hgroups', hparts', hbegins⟩ => ?_, fun h => by cases h⟩
      obtain ⟨rfl, rfl, rfl⟩ := hgroups.unique hgroups'
      obtain rfl := hparts.unique hparts'
      exact absurd hbegins (hnone _ _)
  | began hgroups _ hparts hbegins =>
      exact ⟨fun _ => rfl, fun _ => ⟨_, _, _, _, _, _, hgroups, hparts, hbegins⟩⟩

end

/-- What the handler of a request returns. -/
def outcome (c : Coordinator C) (ctx : Ctx) : Request → Except (Stop String) Unit
  | .keygen req => ((handleKeygenRequest req ctx).run c).1
  | .sign req => ((handleSignRequest req ctx).run c).1

theorem begins_iff (c : Coordinator C) (ctx : Ctx) (req : Request) :
    c.Begins ctx req ↔ (c.outcome ctx req).isOk = true := by
  cases req with
  | keygen req =>
      have hends : KeygenRequested c req ctx _ _ _ := handleKeygenRequest_cases req ctx c
      exact hends.begins_iff
  | sign req =>
      have hends : SignRequested c req ctx _ _ _ := handleSignRequest_cases req ctx c
      exact hends.begins_iff

instance (c : Coordinator C) (ctx : Ctx) (req : Request) : Decidable (c.Begins ctx req) :=
  decidable_of_iff _ (c.begins_iff ctx req).symm

end Coordinator

namespace Node

/-! ## Steps -/

/-- A request that is taken up begins its session. -/
def Answerable (c : Coordinator C) (ctx : Ctx) : Mail C → Prop
  | .request req => c.Begins ctx req
  | _ => True

instance (c : Coordinator C) (ctx : Ctx) (m : Mail C) : Decidable (Answerable c ctx m) := by
  unfold Answerable
  split <;> infer_instance

/-- Nothing fails in the step at the event: the stream goes on, no send comes after one
that failed, and neither the coordinator nor a runner fails. -/
def Unfailing (n : Node C) : Event → Prop
  | .wire item amb => ∀ w ∈ n.arriving item, n.coordinator.ManagesIncoming amb ⟨w, n.nextOrigin⟩
  | .mail amb => ∀ m ∈ n.mailbox.head?, Answerable n.coordinator (n.ctx amb) m
  | .retry amb => ∀ m ∈ n.notified.head?, n.coordinator.ManagesRetry amb m
  | .tickKG a _ => ∀ x ∈ n.playersKG[a]?, x.state.Manages C.overflowChecks none
  | .tickO a _ => ∀ x ∈ n.playersO[a]?, x.state.Manages C.overflowChecks none
  | .playKG a _ => ∀ x ∈ n.playersKG[a]?, ∀ m ∈ x.mailbox.head?,
      x.state.Manages C.overflowChecks (some m)
  | .playO a _ => ∀ x ∈ n.playersO[a]?, ∀ m ∈ x.mailbox.head?,
      x.state.Manages C.overflowChecks (some m)
  | .startS a => ∀ x ∈ n.signers[a]?, x.state.Manages none
  | .playS a => ∀ x ∈ n.signers[a]?, ∀ m ∈ x.mailbox.head?, x.state.Manages (some m)
  | .finished => False
  | .sendOne _ => n.sink.isSome = true
  | .request _ | .fire _ => True

instance (n : Node C) (e : Event) : Decidable (n.Unfailing e) := by
  unfold Unfailing
  split <;> infer_instance

/-- Everybody is up. -/
structure Up (n : Node C) : Prop where
  alive : n.alive = true
  playersKG : ∀ x ∈ n.playersKG, x.alive = true
  playersO : ∀ x ∈ n.playersO, x.alive = true
  signers : ∀ x ∈ n.signers, x.alive = true

/-- Everybody is up, and a signer that has started accepts its task. -/
structure Healthy (n : Node C) : Prop where
  alive : n.alive = true
  playersKG : ∀ x ∈ n.playersKG, x.alive = true
  playersO : ∀ x ∈ n.playersO, x.alive = true
  signers : ∀ x ∈ n.signers, x.alive = true ∧ (x.started = true → x.state.Accepts)

theorem Up.init (sk : C.SecretKey) (db : Tree C) : Up (init sk db) where
  alive := rfl
  playersKG _ h := by cases h
  playersO _ h := by cases h
  signers _ h := by cases h

theorem Healthy.init (sk : C.SecretKey) (db : Tree C) : Healthy (init sk db) where
  alive := rfl
  playersKG _ h := by cases h
  playersO _ h := by cases h
  signers _ h := by cases h

theorem Healthy.up {n : Node C} (h : Healthy n) : Up n where
  alive := h.alive
  playersKG := h.playersKG
  playersO := h.playersO
  signers x hx := (h.signers x hx).1

@[simp] theorem post_alive {σ μ : Type} (m : μ) (x : Actor σ μ) : (x.post m).alive = x.alive := by
  unfold Actor.post
  split <;> rfl

@[simp] theorem post_started {σ μ : Type} (m : μ) (x : Actor σ μ) :
    (x.post m).started = x.started := by
  unfold Actor.post
  split <;> rfl

theorem forall_mem_modify {α : Type} {p : α → Prop} {f : α → α} (hf : ∀ x, p x → p (f x))
    {l : List α} (h : ∀ x ∈ l, p x) (a : Nat) : ∀ x ∈ l.modify a f, p x := by
  intro x hx
  obtain ⟨i, hi⟩ := List.mem_iff_getElem?.mp hx
  rw [List.getElem?_modify] at hi
  obtain ⟨y, hy, rfl⟩ := Option.map_eq_some_iff.mp hi
  have hp := h y (List.mem_of_getElem? hy)
  split
  · exact hf y hp
  · exact hp

theorem forall_mem_set {α : Type} {p : α → Prop} {l : List α} (h : ∀ x ∈ l, p x) {a : Nat} {y : α}
    (hy : p y) : ∀ x ∈ l.set a y, p x := by
  intro x hx
  rcases List.mem_or_eq_of_mem_set hx with hx | rfl
  · exact h x hx
  · exact hy

theorem Up.applyEffect {n : Node C} (h : Up n) (e : Effect C) : Up (n.applyEffect e) := by
  cases e with
  | deliverKG a m =>
      exact ⟨h.alive, forall_mem_modify (fun x hx => by simpa using hx) h.playersKG a, h.playersO,
        h.signers⟩
  | deliverO a m =>
      exact ⟨h.alive, h.playersKG, forall_mem_modify (fun x hx => by simpa using hx) h.playersO a,
        h.signers⟩
  | deliverS a m =>
      exact ⟨h.alive, h.playersKG, h.playersO,
        forall_mem_modify (fun x hx => by simpa using hx) h.signers a⟩
  | startKG a p =>
      exact ⟨h.alive, List.forall_mem_append.mpr ⟨h.playersKG, List.forall_mem_singleton.mpr rfl⟩,
        h.playersO, h.signers⟩
  | startO a p =>
      exact ⟨h.alive, h.playersKG,
        List.forall_mem_append.mpr ⟨h.playersO, List.forall_mem_singleton.mpr rfl⟩, h.signers⟩
  | startS a s =>
      exact ⟨h.alive, h.playersKG, h.playersO,
        List.forall_mem_append.mpr ⟨h.signers, List.forall_mem_singleton.mpr rfl⟩⟩
  | _ => exact ⟨h.alive, h.playersKG, h.playersO, h.signers⟩

theorem Up.applyEffects {n : Node C} (h : Up n) (es : List (Effect C)) :
    Up (es.foldl Node.applyEffect n) := by
  induction es generalizing n with
  | nil => exact h
  | cons e es ih => exact ih (h.applyEffect e)

/-- A signer that is started has not begun its task. -/
theorem Healthy.applyEffect {n : Node C} (h : Healthy n) (e : Effect C) :
    Healthy (n.applyEffect e) := by
  have hup := h.up.applyEffect e
  refine ⟨hup.alive, hup.playersKG, hup.playersO, ?_⟩
  cases e with
  | deliverS a m => exact forall_mem_modify (fun x hx => by simpa using hx) h.signers a
  | startS a s =>
      refine List.forall_mem_append.mpr ⟨h.signers, ?_⟩
      exact List.forall_mem_singleton.mpr ⟨rfl, fun hstarted => by cases hstarted⟩
  | _ => exact h.signers

theorem Healthy.applyEffects {n : Node C} (h : Healthy n) (es : List (Effect C)) :
    Healthy (es.foldl Node.applyEffect n) := by
  induction es generalizing n with
  | nil => exact h
  | cons e es ih => exact ih (h.applyEffect e)

/-! ### Calls -/

theorem callKG_endsWell {p : PlayerKG C} {msg : Option (IncomingKG C)}
    (h : p.Manages C.overflowChecks msg) (now : Nat) :
    isPanic (callKG p now msg).1 = false ∧
      ∀ s ∈ (callKG p now msg).2.2, MpcPlayer.isFailure s = false := by
  cases msg with
  | none => exact MpcPlayer.tick_endsWell h C.msgKG now
  | some m => exact MpcPlayer.handle_endsWell h C.msgKG now

theorem callO_endsWell {p : PlayerO C} {msg : Option (IncomingO C)}
    (h : p.Manages C.overflowChecks msg) (now : Nat) :
    isPanic (callO p now msg).1 = false ∧
      ∀ s ∈ (callO p now msg).2.2, MpcPlayer.isFailure s = false := by
  cases msg with
  | none => exact MpcPlayer.tick_endsWell h C.msgO now
  | some m => exact MpcPlayer.handle_endsWell h C.msgO now

theorem callS_endsWell {s : Signer C} {msg : Option (IncomingS C)} (h : s.Manages msg) :
    isPanic (callS s msg).1 = false ∧ ∀ x ∈ (callS s msg).2.2, Signer.isFailure x = false := by
  cases msg with
  | none => exact s.started_endsWell
  | some m => exact Signer.handle_endsWell h

section
variable {n t : Node C} {e : Event} {o : List (Obs C)} {a now : Nat}

theorem Unfailing.playerKG {x : Actor (PlayerKG C) (IncomingKG C)} {rest : List (IncomingKG C)}
    (hg : n.Unfailing e) {msg : Option (IncomingKG C)} (hget : n.playersKG[a]? = some x)
    (hbox : x.mailbox = msg.toList ++ rest)
    (he : e = if msg.isSome then .playKG a now else .tickKG a now) :
    x.state.Manages C.overflowChecks msg := by
  subst he
  cases msg with
  | none => exact hg x hget
  | some m => exact hg x hget m (by rw [hbox]; rfl)

theorem Unfailing.playerO {x : Actor (PlayerO C) (IncomingO C)} {rest : List (IncomingO C)}
    (hg : n.Unfailing e) {msg : Option (IncomingO C)} (hget : n.playersO[a]? = some x)
    (hbox : x.mailbox = msg.toList ++ rest)
    (he : e = if msg.isSome then .playO a now else .tickO a now) :
    x.state.Manages C.overflowChecks msg := by
  subst he
  cases msg with
  | none => exact hg x hget
  | some m => exact hg x hget m (by rw [hbox]; rfl)

theorem Unfailing.signer {x : Actor (Signer C) (IncomingS C)} {rest : List (IncomingS C)}
    (hg : n.Unfailing e) {msg : Option (IncomingS C)} (hget : n.signers[a]? = some x)
    (hbox : x.mailbox = msg.toList ++ rest)
    (he : e = if msg.isSome then .playS a else .startS a) : x.state.Manages msg := by
  subst he
  cases msg with
  | none => exact hg x hget
  | some m => exact hg x hget m (by rw [hbox]; rfl)

/-! ### The coordinator stays up -/

theorem isPanic_of_isOk {ε α : Type} {r : Except (Stop ε) α} (h : r.isOk = true) :
    isPanic r = false := by
  cases r with
  | ok _ => rfl
  | error _ => cases h

theorem Handled.stays_up {c c' : Coordinator C} {ctx : Ctx} {m : Mail C}
    {r : Except (Stop String) Unit} {es : List (Effect C)} (h : Handled c ctx m r c' es)
    (hm : Answerable c ctx m) (hkeys : ∀ a out, m = .outputKG a out →
      (PublicKeyGroup.groupIdOf out.input.participantPublicKeys).isOk = true) :
    isPanic r = false := by
  cases h with
  | keygenRequest hk => exact isPanic_of_isOk (hk.begins_iff.mp hm)
  | signRequest hk => exact isPanic_of_isOk (hk.begins_iff.mp hm)
  | outgoing _ => rfl
  | outputKG hk =>
      cases hk with
      | panicked herror =>
          have hok := hkeys _ _ rfl
          rw [PublicKeyGroup.new_eq_error.mp herror] at hok
          cases hok
      | done _ => rfl
  | outputO hk => cases hk <;> rfl
  | outputS => rfl

theorem healthy_settle (h : Healthy n) {f : Fate} (hf : f.panics = false) :
    Healthy (n.settle f) := by
  have hup : Healthy { n with alive := !f.panics } := by
    rw [hf]
    exact ⟨rfl, h.playersKG, h.playersO, h.signers⟩
  exact hup.applyEffects _

/-- **Nobody goes down in a step in which nothing fails.** -/
theorem Healthy.step (h : Healthy n) (hg : n.Unfailing e) (hs : Steps n e t o)
    (hkeys : ∀ a out, .outputKG a out ∈ n.mailbox →
      (PublicKeyGroup.groupIdOf out.input.participantPublicKeys).isOk = true) : Healthy t := by
  cases hs with
  | skipped _ => exact h
  | finished _ => cases hg
  | attempted _ _ hpost =>
      obtain rfl := hpost.up hg
      exact ⟨rfl, h.playersKG, h.playersO, h.signers⟩
  | lost _ => exact h
  | queued _ => exact ⟨h.alive, h.playersKG, h.playersO, h.signers⟩
  | @received item amb w _ harr =>
      obtain ⟨f, hf, heq⟩ := receive_fate n w amb
      have hnext : Healthy { n with nextOrigin := n.nextOrigin + 1 } :=
        ⟨h.alive, h.playersKG, h.playersO, h.signers⟩
      rw [heq]
      exact healthy_settle hnext (hf.stays_up (hg w harr))
  | @tookMail amb m rest _ hbox =>
      have hhead : m ∈ n.mailbox.head? := by rw [hbox]; rfl
      cases hm : reported m with
      | some r =>
          obtain ⟨error, b⟩ := r
          have hrest : Healthy { n with mailbox := rest } :=
            ⟨h.alive, h.playersKG, h.playersO, h.signers⟩
          rw [takeMail_reported n hm]
          exact healthy_settle hrest (by cases error <;> rfl)
      | none =>
          obtain ⟨r, c, es, hh, heq⟩ := takeMail_handled n hm rest amb
          have hup := hh.stays_up (hg m hhead) fun a out hout =>
            hkeys a out (by rw [hbox, hout]; exact List.mem_cons_self)
          have hanswered : Healthy
              { n with mailbox := rest, coordinator := c, alive := !isPanic r } := by
            rw [hup]
            exact ⟨rfl, h.playersKG, h.playersO, h.signers⟩
          rw [heq]
          exact hanswered.applyEffects es
  | fired _ => exact ⟨h.alive, h.playersKG, h.playersO, h.signers⟩
  | @tookRetry amb m rest _ hbox =>
      obtain ⟨f, hf, heq⟩ := takeRetry_fate n m rest amb
      have hrest : Healthy { n with notified := rest } :=
        ⟨h.alive, h.playersKG, h.playersO, h.signers⟩
      rw [heq]
      exact healthy_settle hrest (hf.stays_up (hg m (by rw [hbox]; rfl)))
  | ranKG msg hget _ hbox he =>
      refine ⟨h.alive, forall_mem_set h.playersKG ?_, h.playersO, h.signers⟩
      simp [Actor.after, (callKG_endsWell (hg.playerKG hget hbox he) _).1]
  | ranO msg hget _ hbox he =>
      refine ⟨h.alive, h.playersKG, forall_mem_set h.playersO ?_, h.signers⟩
      simp [Actor.after, (callO_endsWell (hg.playerO hget hbox he) _).1]
  | @ranS _ a x rest msg hget _ hstarted hbox he =>
      -- a signer that accepts goes on accepting: its task never changes
      have hmanages := hg.signer hget hbox he
      have haccepts : x.state.Accepts := by
        cases msg with
        | none => exact hmanages
        | some m => exact (h.signers x (List.mem_of_getElem? hget)).2 hstarted
      refine ⟨h.alive, h.playersKG, h.playersO, forall_mem_set h.signers ⟨?_, fun _ => ?_⟩⟩
      · simp [Actor.after, (callS_endsWell hmanages).1]
      · have htask := (callS_keeps x.state msg).1.2
        unfold Signer.Accepts at haccepts ⊢
        rw [Actor.after, htask]
        exact haccepts

/-! ### Nobody fails -/

/-- A failure of a runner. -/
def IsFailure : Obs C → Prop
  | .failedKG _ | .failedO _ | .failedS _ => True
  | _ => False

theorem failures_nil {I β ε ο : Type} {y : Obs C} {sends : List (PlayerSend I β ε ο)}
    (h : ∀ s ∈ sends, MpcPlayer.isFailure s = false) : sends.filterMap (failureOf y) = [] := by
  refine List.filterMap_eq_nil_iff.mpr fun s hs => ?_
  have := h s hs
  cases s <;> first | rfl | cases this

theorem failuresS_nil {y : Obs C} {sends : List (SignerSend C)}
    (h : ∀ s ∈ sends, Signer.isFailure s = false) : sends.filterMap (failureOfS y) = [] := by
  refine List.filterMap_eq_nil_iff.mpr fun s hs => ?_
  have := h s hs
  cases s <;> first | rfl | cases this

theorem Steps.no_failure (hs : Steps n e t o) (hg : n.Unfailing e) : ∀ y ∈ o, ¬ IsFailure y := by
  have hperform : ∀ m : Node C, ∀ h, ∀ y ∈ (perform m h).2, ¬ IsFailure y := by
    intro m h y hy
    obtain ⟨x, -, rfl⟩ := List.mem_map.mp hy
    exact not_false
  cases hs with
  | skipped _ => simp
  | finished _ => exact List.forall_mem_singleton.mpr not_false
  | attempted _ _ _ => exact List.forall_mem_singleton.mpr not_false
  | lost _ => simp
  | queued _ => simp
  | received _ _ => exact List.forall_mem_cons.mpr ⟨not_false, hperform _ _⟩
  | tookMail _ _ => exact List.forall_mem_cons.mpr ⟨not_false, hperform _ _⟩
  | fired _ => simp
  | tookRetry _ _ => exact hperform _ _
  | ranKG msg hget _ hbox he =>
      rw [afterKG, failures_nil (callKG_endsWell (hg.playerKG hget hbox he) _).2]
      simp
  | ranO msg hget _ hbox he =>
      rw [afterO, failures_nil (callO_endsWell (hg.playerO hget hbox he) _).2]
      simp
  | ranS msg hget _ _ hbox he =>
      rw [afterS, failuresS_nil (callS_endsWell (hg.signer hget hbox he)).2]
      simp

end

end Node

end MpcServer

import MpcServer.Actors.Routing
import MpcServer.Actors.Sessions
import MpcServer.Actors.Node

/-!
# What one step of a node can do

The event says which handler runs; the lemmas on the coordinator and the
runners say how its call ends. Here both are put together, once: a step of a
node is one of twelve things, and an envelope that is taken up settles into its
fate.
-/

namespace MpcServer

open Rust Rust.Method

variable {C : Crates}

namespace Node

theorem eq_of_mem_failures {I β ε ο : Type} {x y : Obs C} {sends : List (PlayerSend I β ε ο)}
    (h : y ∈ sends.filterMap (failureOf x)) : y = x := by
  obtain ⟨s, -, hs⟩ := List.mem_filterMap.mp h
  cases s <;> cases hs
  rfl

theorem eq_of_mem_failuresS {x y : Obs C} {sends : List (SignerSend C)}
    (h : y ∈ sends.filterMap (failureOfS x)) : y = x := by
  obtain ⟨s, -, hs⟩ := List.mem_filterMap.mp h
  cases s <;> cases hs
  rfl

/-! ## Carrying out effects -/

/-- What no effect changes stays through all of them. -/
theorem applyEffects_keeps {α : Type} {f : Node C → α} (h : ∀ n e, f (applyEffect n e) = f n)
    (es : List (Effect C)) (n : Node C) : f (es.foldl applyEffect n) = f n := by
  induction es generalizing n with
  | nil => rfl
  | cons e es ih => rw [List.foldl_cons, ih, h]

/-- A list that each effect lengthens by what it adds. -/
theorem applyEffects_appends {α : Type} {f : Node C → List α} {added : Effect C → Option α}
    (h : ∀ n e, f (applyEffect n e) = f n ++ (added e).toList) (es : List (Effect C))
    (n : Node C) : f (es.foldl applyEffect n) = f n ++ es.filterMap added := by
  induction es generalizing n with
  | nil => simp
  | cons e es ih =>
      rw [List.foldl_cons, ih, h, List.filterMap_cons]
      cases added e <;> simp

section
variable (os : List (Effect C)) (n : Node C)

@[simp] theorem applyEffects_coordinator :
    (os.foldl applyEffect n).coordinator = n.coordinator :=
  applyEffects_keeps (fun _ e => by cases e <;> rfl) os n

@[simp] theorem applyEffects_alive : (os.foldl applyEffect n).alive = n.alive :=
  applyEffects_keeps (fun _ e => by cases e <;> rfl) os n

@[simp] theorem applyEffects_nextOrigin :
    (os.foldl applyEffect n).nextOrigin = n.nextOrigin :=
  applyEffects_keeps (fun _ e => by cases e <;> rfl) os n

@[simp] theorem applyEffects_mailbox : (os.foldl applyEffect n).mailbox = n.mailbox :=
  applyEffects_keeps (fun _ e => by cases e <;> rfl) os n

@[simp] theorem applyEffects_notified : (os.foldl applyEffect n).notified = n.notified :=
  applyEffects_keeps (fun _ e => by cases e <;> rfl) os n

end

/-- A retry that an effect puts on the clock. -/
def scheduled : Effect C → Option RetryMessage
  | .schedule _ m => some m
  | _ => none

theorem applyEffects_timers (os : List (Effect C)) (n : Node C) :
    (os.foldl applyEffect n).timers = n.timers ++ os.filterMap scheduled :=
  applyEffects_appends (fun _ e => by cases e <;> simp [applyEffect, scheduled]) os n

/-- What an effect does to the list of the keygen players. -/
def applyKG (l : List (Actor (PlayerKG C) (IncomingKG C))) :
    Effect C → List (Actor (PlayerKG C) (IncomingKG C))
  | .deliverKG a m => l.modify a (Actor.post m)
  | .startKG _ p => l ++ [⟨p, [], true, true⟩]
  | _ => l

/-- The offline players after an effect. -/
def applyO (l : List (Actor (PlayerO C) (IncomingO C))) :
    Effect C → List (Actor (PlayerO C) (IncomingO C))
  | .deliverO a m => l.modify a (Actor.post m)
  | .startO _ p => l ++ [⟨p, [], true, true⟩]
  | _ => l

/-- The signers after an effect. -/
def applyS (l : List (Actor (Signer C) (IncomingS C))) :
    Effect C → List (Actor (Signer C) (IncomingS C))
  | .deliverS a m => l.modify a (Actor.post m)
  | .startS _ s => l ++ [⟨s, [], false, true⟩]
  | _ => l

theorem applyEffects_playersKG (os : List (Effect C)) (n : Node C) :
    (os.foldl applyEffect n).playersKG = os.foldl applyKG n.playersKG :=
  (List.foldl_hom playersKG fun _ e => by cases e <;> rfl).symm

theorem applyEffects_playersO (os : List (Effect C)) (n : Node C) :
    (os.foldl applyEffect n).playersO = os.foldl applyO n.playersO :=
  (List.foldl_hom playersO fun _ e => by cases e <;> rfl).symm

theorem applyEffects_signers (os : List (Effect C)) (n : Node C) :
    (os.foldl applyEffect n).signers = os.foldl applyS n.signers :=
  (List.foldl_hom signers fun _ e => by cases e <;> rfl).symm

theorem perform_of_run {n : Node C} {h : Coordinator.Call C String Unit}
    {r : Except (Stop String) Unit} {c : Coordinator C} {os : List (Effect C)}
    (hrun : h.run n.coordinator = (r, c, os)) :
    perform n h =
      (os.foldl applyEffect { n with coordinator := c, alive := !isPanic r }, os.map .effect) := by
  simp only [perform, hrun]

theorem perform_of_ends {n : Node C} {h : Coordinator.Call C String Unit}
    {P : Except (Stop String) Unit → Coordinator C → List (Effect C) → Prop}
    (hends : Ends h n.coordinator P) :
    ∃ r c os, P r c os ∧ perform n h =
      (os.foldl applyEffect { n with coordinator := c, alive := !isPanic r }, os.map .effect) :=
  ⟨_, _, _, hends, rfl⟩

/-- A request handler's `Err` is dropped; its panic is not. -/
theorem perform_attempt_of_ends {n : Node C} {h : Coordinator.Call C String Unit}
    {P : Except (Stop String) Unit → Coordinator C → List (Effect C) → Prop}
    (hends : Ends h n.coordinator P) :
    ∃ r c os, P r c os ∧
      perform n (attempt (ε := String) h >>= fun _ => pure ()) =
        (os.foldl applyEffect { n with coordinator := c, alive := !isPanic r },
          os.map .effect) := by
  refine ⟨_, _, _, hends, ?_⟩
  simp only [perform, run_bind, run_attempt]
  rcases h.run n.coordinator with ⟨(e | p) | u, c, os⟩ <;> simp [isPanic]

/-! ## Fates -/

/-- The node when the copy a handler took up has met its fate. -/
def settle (n : Node C) (f : Fate) : Node C :=
  (n.coordinator.effects f).foldl applyEffect { n with alive := !f.panics }

theorem perform_fate {n : Node C} {h : Coordinator.Call C String Unit}
    {r : Except (Stop String) Unit} {f : Fate}
    (hrun : h.run n.coordinator = (r, n.coordinator, n.coordinator.effects f))
    (hpanic : isPanic r = f.panics) :
    perform n h = (n.settle f, (n.coordinator.effects f).map .effect) := by
  rw [perform_of_run hrun, hpanic, settle]

theorem receive_fate (n : Node C) (w : WireMessage) (amb : Ambient) :
    ∃ f, Coordinator.Incoming n.coordinator (n.ctx amb) ⟨w, n.nextOrigin⟩ f ∧
      n.receive w amb = (settle { n with nextOrigin := n.nextOrigin + 1 } f,
        .received n.nextOrigin w :: (n.coordinator.effects f).map .effect) := by
  obtain ⟨r, f, hrun, hpanic, hf⟩ :=
    Coordinator.handleIncoming_run ⟨w, n.nextOrigin⟩ (n.ctx amb) n.coordinator
  refine ⟨f, hf, ?_⟩
  unfold receive
  rw [perform_fate (n := { n with nextOrigin := n.nextOrigin + 1 })
    (h := Coordinator.handleCoordinatorMessage (.incoming ⟨w, n.nextOrigin⟩) (n.ctx amb))
    hrun hpanic]

theorem takeRetry_fate (n : Node C) (m : RetryMessage) (rest : List RetryMessage)
    (amb : Ambient) :
    ∃ f, Coordinator.Retried n.coordinator (n.ctx amb) m f ∧
      n.takeRetry m rest amb = (settle { n with notified := rest } f,
        (n.coordinator.effects f).map .effect) := by
  obtain ⟨r, f, hrun, hpanic, hf⟩ :=
    Coordinator.handleRetryMessage_run m (n.ctx amb) n.coordinator
  exact ⟨f, hf, perform_fate (n := { n with notified := rest }) hrun hpanic⟩

/-- The envelope and the error of an error report. -/
def reported : Mail C → Option (StageError × Arrival)
  | .errorKG e => some (e.error, e.message.wireMessage)
  | .errorO e => some (e.error, e.message.wireMessage)
  | _ => none

theorem reported_mailKG {a : Addr}
    {s : PlayerSend KeygenRequest C.KeygenProtocolMessage StageError C.LocalKey} {m : Mail C}
    {error : StageError} {w : Arrival} (hmail : mailKG a s = some m)
    (hr : reported m = some (error, w)) :
    ∃ e, s = .error e ∧ e.error = error ∧ e.message.wireMessage = w := by
  cases s <;> cases hmail <;> cases hr
  exact ⟨_, rfl, rfl, rfl⟩

theorem reported_mailO {a : Addr}
    {s : PlayerSend EnrichedSignRequest C.OfflineProtocolMessage StageError
      C.CompletedOfflineStage} {m : Mail C}
    {error : StageError} {w : Arrival} (hmail : mailO a s = some m)
    (hr : reported m = some (error, w)) :
    ∃ e, s = .error e ∧ e.error = error ∧ e.message.wireMessage = w := by
  cases s <;> cases hmail <;> cases hr
  exact ⟨_, rfl, rfl, rfl⟩

theorem takeMail_reported (n : Node C) {m : Mail C} {error : StageError} {a : Arrival}
    (hm : reported m = some (error, a)) (rest : List (Mail C)) (amb : Ambient) :
    n.takeMail m rest amb =
      (settle { n with mailbox := rest } (Coordinator.fateOfError error a (n.ctx amb)),
        .handled m :: (n.coordinator.effects
          (Coordinator.fateOfError error a (n.ctx amb))).map .effect) := by
  have hrun := Coordinator.handleProtocolError_run error a (n.ctx amb) n.coordinator
  have hpanic : isPanic (.ok () : Except (Stop String) Unit) =
      (Coordinator.fateOfError error a (n.ctx amb)).panics := by
    cases error <;> rfl
  have hperform := perform_fate (n := { n with mailbox := rest }) hrun hpanic
  cases m <;> simp only [reported, Option.some.injEq, Prod.mk.injEq, reduceCtorEq] at hm
  all_goals
    obtain ⟨rfl, rfl⟩ := hm
    unfold takeMail
    exact congrArg (fun r => (r.1, _ :: r.2)) hperform

/-! ## The rest of the mail -/

/-- The mail that comes from no error handler: what its handler can do. -/
inductive Handled (c : Coordinator C) (ctx : Ctx) :
    Mail C → Except (Stop String) Unit → Coordinator C → List (Effect C) → Prop
  | keygenRequest {req r c' os} : Coordinator.KeygenRequested c req ctx r c' os →
      Handled c ctx (.request (.keygen req)) r c' os
  | signRequest {req r c' os} : Coordinator.SignRequested c req ctx r c' os →
      Handled c ctx (.request (.sign req)) r c' os
  | outgoing {msg os} : (∀ o ∈ os, ∃ m, o = .send m) → Handled c ctx (.outgoing msg) (.ok ()) c os
  | outputKG {a out r c' os} : Coordinator.KeygenOutput c out ctx r c' os →
      Handled c ctx (.outputKG a out) r c' os
  | outputO {a out r c' os} : Coordinator.OfflineOutput c out ctx r c' os →
      Handled c ctx (.outputO a out) r c' os
  | outputS {a out} : Handled c ctx (.outputS a out) (.ok ()) c
      [.status (Coordinator.signDone out)]

theorem takeMail_handled (n : Node C) {m : Mail C} (hm : reported m = none)
    (rest : List (Mail C)) (amb : Ambient) :
    ∃ r c os, Handled n.coordinator (n.ctx amb) m r c os ∧
      n.takeMail m rest amb =
        (os.foldl applyEffect
          { n with mailbox := rest, coordinator := c, alive := !isPanic r },
          .handled m :: os.map .effect) := by
  -- a handler whose end is known, put into the node
  have hfound : ∀ {h : Coordinator.Call C String Unit} {r c os},
      Handled n.coordinator (n.ctx amb) m r c os → handleMail (n.ctx amb) m = h →
      perform { n with mailbox := rest } h =
        (os.foldl applyEffect { n with mailbox := rest, coordinator := c, alive := !isPanic r },
          os.map .effect) →
      ∃ r c os, Handled n.coordinator (n.ctx amb) m r c os ∧
        n.takeMail m rest amb =
          (os.foldl applyEffect
            { n with mailbox := rest, coordinator := c, alive := !isPanic r },
            .handled m :: os.map .effect) := by
    intro h r c os hh heq hp
    refine ⟨r, c, os, hh, ?_⟩
    unfold takeMail
    rw [heq, hp]
  cases m with
  | request req =>
      cases req with
      | keygen req =>
          obtain ⟨r, c, os, hp, heq⟩ := perform_attempt_of_ends (n := { n with mailbox := rest })
            (Coordinator.handleKeygenRequest_cases req (n.ctx amb) n.coordinator)
          exact hfound (.keygenRequest hp) rfl heq
      | sign req =>
          obtain ⟨r, c, os, hp, heq⟩ := perform_attempt_of_ends (n := { n with mailbox := rest })
            (Coordinator.handleSignRequest_cases req (n.ctx amb) n.coordinator)
          exact hfound (.signRequest hp) rfl heq
  | outgoing msg =>
      obtain ⟨os, hrun, hos⟩ :=
        Coordinator.handleOutgoing_run msg (n.ctx amb) n.coordinator
      exact hfound (.outgoing hos) rfl (perform_of_run (n := { n with mailbox := rest }) hrun)
  | errorKG e => cases hm
  | errorO e => cases hm
  | outputKG a out =>
      obtain ⟨r, c, os, hp, heq⟩ := perform_of_ends (n := { n with mailbox := rest })
        (Coordinator.handleProtocolOutputKG_cases out (n.ctx amb) n.coordinator)
      exact hfound (.outputKG hp) rfl heq
  | outputO a out =>
      obtain ⟨r, c, os, hp, heq⟩ := perform_of_ends (n := { n with mailbox := rest })
        (Coordinator.handleProtocolOutputO_cases out (n.ctx amb) n.coordinator)
      exact hfound (.outputO hp) rfl heq
  | outputS a out =>
      exact hfound .outputS rfl (perform_of_run (n := { n with mailbox := rest })
        (Coordinator.handleProtocolOutputS_run out n.coordinator))

/-- An effect that moves no copy of an envelope. -/
def Quiet : Effect C → Prop
  | .schedule _ _ | .drop _ | .deliverKG _ _ | .deliverO _ _ | .deliverS _ _ => False
  | _ => True

theorem Handled.quiet {c c' : Coordinator C} {ctx : Ctx} {m : Mail C}
    {r : Except (Stop String) Unit} {os : List (Effect C)} (h : Handled c ctx m r c' os) :
    ∀ o ∈ os, Quiet o := by
  cases h with
  | keygenRequest h => cases h <;> simp [Quiet]
  | signRequest h => cases h <;> simp [Quiet]
  | outgoing hos =>
      intro o ho
      obtain ⟨m, rfl⟩ := hos o ho
      trivial
  | outputKG h => cases h <;> simp [Quiet]
  | outputO h => cases h <;> simp [Quiet]
  | outputS => simp [Quiet]

theorem scheduled_of_quiet {os : List (Effect C)} (h : ∀ o ∈ os, Quiet o) :
    os.filterMap scheduled = [] := by
  refine List.filterMap_eq_nil_iff.mpr fun o ho => ?_
  have := h o ho
  cases o <;> first | rfl | cases this

/-! ## Runners -/

/-- A call of a keygen player: a tick, or a message from its mailbox. -/
def callKG (p : PlayerKG C) (now : Nat) : Option (IncomingKG C) → ResultKG C
  | none => (MpcPlayer.tick C.msgKG now).run p
  | some m => (MpcPlayer.handle C.overflowChecks C.msgKG now m).run p

/-- One call of an offline player, with a message or a tick. -/
def callO (p : PlayerO C) (now : Nat) : Option (IncomingO C) → ResultO C
  | none => (MpcPlayer.tick C.msgO now).run p
  | some m => (MpcPlayer.handle C.overflowChecks C.msgO now m).run p

/-- One call of a signer, with a message or the first tick. -/
def callS (s : Signer C) : Option (IncomingS C) → ResultS C
  | none => Signer.started.run s
  | some m => (Signer.handle m).run s

theorem callKG_keeps (p : PlayerKG C) (now : Nat) (msg : Option (IncomingKG C)) :
    MpcPlayer.Same p (callKG p now msg).2.1 ∧
      ∀ s ∈ (callKG p now msg).2.2, MpcPlayer.Sends p msg s := by
  cases msg with
  | none => exact MpcPlayer.tick_keeps p C.msgKG now p (.refl p)
  | some m => exact MpcPlayer.handle_keeps p C.overflowChecks C.msgKG now m p (.refl p)

theorem callO_keeps (p : PlayerO C) (now : Nat) (msg : Option (IncomingO C)) :
    MpcPlayer.Same p (callO p now msg).2.1 ∧
      ∀ s ∈ (callO p now msg).2.2, MpcPlayer.Sends p msg s := by
  cases msg with
  | none => exact MpcPlayer.tick_keeps p C.msgO now p (.refl p)
  | some m => exact MpcPlayer.handle_keeps p C.overflowChecks C.msgO now m p (.refl p)

theorem callS_keeps (s : Signer C) (msg : Option (IncomingS C)) :
    Signer.Same s (callS s msg).2.1 ∧ ∀ o ∈ (callS s msg).2.2, Signer.Sends s o := by
  cases msg with
  | none => exact Signer.started_keeps s s (.refl s)
  | some m => exact Signer.handle_keeps s m s (.refl s)

/-! ## Steps -/

/-- **What a step can do.** -/
inductive Steps (n : Node C) : Event → Node C → List (Obs C) → Prop
  | skipped {item amb} : n.arriving item = none → Steps n (.wire item amb) n []
  | finished : n.alive = true → Steps n .finished { n with alive := false } [.finished]
  | attempted {fate m rest sink up text} : n.alive = true → n.outbox = m :: rest →
      Posts n.sink fate m sink up text →
      Steps n (.sendOne fate) { n with sink, outbox := rest, alive := up } [.attempted m text up]
  | lost {req} : n.alive = false → Steps n (.request req) n []
  | queued {req} : n.alive = true →
      Steps n (.request req) { n with mailbox := n.mailbox ++ [.request req] } []
  | received {item amb w} : n.alive = true → n.arriving item = some w →
      Steps n (.wire item amb) (n.receive w amb).1 (n.receive w amb).2
  | tookMail {amb m rest} : n.alive = true → n.mailbox = m :: rest →
      Steps n (.mail amb) (n.takeMail m rest amb).1 (n.takeMail m rest amb).2
  | fired {i m} : n.timers[i]? = some m →
      Steps n (.fire i) { n with timers := n.timers.eraseIdx i, notified := n.notified ++ [m] } []
  | tookRetry {amb m rest} : n.alive = true → n.notified = m :: rest →
      Steps n (.retry amb) (n.takeRetry m rest amb).1 (n.takeRetry m rest amb).2
  | ranKG {e a now x rest} (msg : Option (IncomingKG C)) : n.playersKG[a]? = some x →
      x.alive = true → x.mailbox = msg.toList ++ rest →
      e = (if msg.isSome then .playKG a now else .tickKG a now) →
      Steps n e (n.afterKG a rest (callKG x.state now msg)).1
        (n.afterKG a rest (callKG x.state now msg)).2
  | ranO {e a now x rest} (msg : Option (IncomingO C)) : n.playersO[a]? = some x →
      x.alive = true → x.mailbox = msg.toList ++ rest →
      e = (if msg.isSome then .playO a now else .tickO a now) →
      Steps n e (n.afterO a rest (callO x.state now msg)).1
        (n.afterO a rest (callO x.state now msg)).2
  | ranS {e a x rest} (msg : Option (IncomingS C)) : n.signers[a]? = some x →
      x.alive = true → x.started = msg.isSome → x.mailbox = msg.toList ++ rest →
      e = (if msg.isSome then .playS a else .startS a) →
      Steps n e (n.afterS a rest (callS x.state msg)).1 (n.afterS a rest (callS x.state msg)).2

theorem step_cases {n t : Node C} {e : Event} {o : List (Obs C)} (h : n.step e = some (t, o)) :
    Steps n e t o := by
  cases e with
  | wire item amb =>
      simp only [step] at h
      split at h
      · rename_i halive
        cases harr : n.arriving item with
        | none =>
            rw [harr] at h
            cases h
            exact .skipped harr
        | some w =>
            rw [harr] at h
            cases h
            exact .received halive harr
      · cases h
  | finished =>
      simp only [step] at h
      split at h
      · cases h
        exact .finished ‹_›
      · cases h
  | sendOne fate =>
      simp only [step] at h
      split at h
      · rename_i m rest halive hbox
        split at h
        · rename_i sink text hpost
          cases h
          have hup : ({ n with sink, outbox := rest } : Node C) =
              { n with sink, outbox := rest, alive := true } := by rw [← halive]
          exact hup ▸ .attempted halive hbox (posts_of_some hpost)
        · rename_i hpost
          cases h
          exact .attempted halive hbox (posts_of_none hpost)
      · cases h
  | request req =>
      simp only [step] at h
      split at h
      · cases h
        exact .queued ‹_›
      · rename_i halive
        cases h
        exact .lost (by simpa using halive)
  | mail amb =>
      simp only [step] at h
      split at h
      · rename_i halive hbox
        cases h
        exact .tookMail halive hbox
      · cases h
  | fire i =>
      simp only [step] at h
      split at h
      · cases h
        exact .fired ‹_›
      · cases h
  | retry amb =>
      simp only [step] at h
      split at h
      · rename_i halive hbox
        cases h
        exact .tookRetry halive hbox
      · cases h
  | tickKG a now =>
      simp only [step] at h
      split at h
      · rename_i hget
        cases h
        have hran := Steps.ranKG (e := .tickKG a now) none hget rfl rfl rfl
        exact hran
      · cases h
  | tickO a now =>
      simp only [step] at h
      split at h
      · rename_i hget
        cases h
        have hran := Steps.ranO (e := .tickO a now) none hget rfl rfl rfl
        exact hran
      · cases h
  | playKG a now =>
      simp only [step] at h
      split at h
      · rename_i m _ _ hget
        cases h
        have hran := Steps.ranKG (e := .playKG a now) (some m) hget rfl rfl rfl
        exact hran
      · cases h
  | playO a now =>
      simp only [step] at h
      split at h
      · rename_i m _ _ hget
        cases h
        have hran := Steps.ranO (e := .playO a now) (some m) hget rfl rfl rfl
        exact hran
      · cases h
  | startS a =>
      simp only [step] at h
      split at h
      · rename_i hget
        cases h
        have hran := Steps.ranS (e := .startS a) none hget rfl rfl rfl rfl
        exact hran
      · cases h
  | playS a =>
      simp only [step] at h
      split at h
      · rename_i m _ hget
        cases h
        have hran := Steps.ranS (e := .playS a) (some m) hget rfl rfl rfl rfl
        exact hran
      · cases h

/-- A timer that fires brings up no retry that was not there. -/
theorem mem_of_fired {n : Node C} {i : Nat} {m m' : RetryMessage} (hget : n.timers[i]? = some m)
    (h : m' ∈ n.timers.eraseIdx i ∨ m' ∈ n.notified ++ [m]) :
    m' ∈ n.timers ∨ m' ∈ n.notified := by
  rcases h with h | h
  · exact .inl (List.mem_of_mem_eraseIdx h)
  · rcases List.mem_append.mp h with h | h
    · exact .inr h
    · obtain rfl := List.mem_singleton.mp h
      exact .inl (List.mem_of_getElem? hget)

/-- A request joins the mail, or is lost with the coordinator. -/
theorem Steps.request {n t : Node C} {req : Request} {o : List (Obs C)}
    (h : Steps n (.request req) t o) :
    o = [] ∧ (n.alive = false ∧ t = n ∨
      n.alive = true ∧ t = { n with mailbox := n.mailbox ++ [.request req] }) := by
  cases h with
  | lost hdown => exact ⟨rfl, .inl ⟨hdown, rfl⟩⟩
  | queued hup => exact ⟨rfl, .inr ⟨hup, rfl⟩⟩
  | ranKG _ _ _ _ he => split at he <;> cases he
  | ranO _ _ _ _ he => split at he <;> cases he
  | ranS _ _ _ _ _ he => split at he <;> cases he

theorem Steps.mail {n t : Node C} {amb : Ambient} {o : List (Obs C)}
    (h : Steps n (.mail amb) t o) :
    ∃ m rest, n.mailbox = m :: rest ∧ (t, o) = n.takeMail m rest amb := by
  cases h with
  | tookMail _ hbox => exact ⟨_, _, hbox, rfl⟩
  | ranKG _ _ _ _ he => split at he <;> cases he
  | ranO _ _ _ _ he => split at he <;> cases he
  | ranS _ _ _ _ _ he => split at he <;> cases he

/-! ## What a step does to the coordinator -/

/-- An observation that goes with no change of the coordinator. -/
def Idle : Obs C → Prop
  | .effect e => match e with
    | .schedule _ _ | .drop _ | .deliverKG _ _ | .deliverO _ _ | .deliverS _ _ => True
    | _ => False
  | .handled m => reported m ≠ none
  | _ => True

theorem idle_effects (c : Coordinator C) (f : Fate) : ∀ o ∈ c.effects f, Idle (.effect o) := by
  intro o ho
  cases f with
  | gone => cases ho
  | panicked => cases ho
  | retried m =>
      simp only [Coordinator.effects, Coordinator.retryEffects] at ho
      split at ho
      all_goals
        obtain rfl := List.mem_singleton.mp ho
        trivial
  | delivered m =>
      simp only [Coordinator.effects, Coordinator.deliveries, List.mem_append, Option.mem_toList,
        Coordinator.delivery, Option.bind_eq_some_iff, Option.map_eq_some_iff] at ho
      obtain (⟨_, -, _, -, rfl⟩ | ⟨_, -, _, -, rfl⟩) | ⟨_, -, _, -, rfl⟩ := ho <;> trivial

/-- The coordinator stays as it is, or it takes up a mail that is no error
report. -/
inductive Turns (n : Node C) (e : Event) (t : Node C) (o : List (Obs C)) : Prop
  | idle : t.coordinator = n.coordinator → (∀ x ∈ o, Idle x) → Turns n e t o
  | handled {amb m rest r c es} : e = .mail amb → n.mailbox = m :: rest →
      Handled n.coordinator (n.ctx amb) m r c es → t.coordinator = c → t.alive = !isPanic r →
      t.mailbox = rest → o = .handled m :: es.map .effect → Turns n e t o

theorem Steps.turns {n t : Node C} {e : Event} {o : List (Obs C)} (h : Steps n e t o) :
    Turns n e t o := by
  have hfate : ∀ c f, ∀ x ∈ ((c : Coordinator C).effects f).map Obs.effect, Idle x := by
    intro c f x hx
    obtain ⟨e, he, rfl⟩ := List.mem_map.mp hx
    exact idle_effects c f e he
  cases h with
  | skipped _ => exact .idle rfl (by simp)
  | finished _ => exact .idle rfl (List.forall_mem_singleton.mpr trivial)
  | attempted _ _ _ => exact .idle rfl (List.forall_mem_singleton.mpr trivial)
  | lost _ => exact .idle rfl (by simp)
  | queued _ => exact .idle rfl (by simp)
  | @received _ amb w _ _ =>
      obtain ⟨f, -, heq⟩ := receive_fate n w amb
      rw [heq]
      exact .idle (by simp [settle]) (List.forall_mem_cons.mpr ⟨trivial, hfate _ f⟩)
  | @tookMail amb m rest halive hbox =>
      cases hm : reported m with
      | some r =>
          rw [takeMail_reported n hm]
          refine .idle (by simp [settle]) (List.forall_mem_cons.mpr ⟨?_, hfate _ _⟩)
          simp [Idle, hm]
      | none =>
          obtain ⟨r, c, es, hh, heq⟩ := takeMail_handled n hm rest amb
          rw [heq]
          exact .handled rfl hbox hh (by simp) (by simp) (by simp) rfl
  | fired _ => exact .idle rfl (by simp)
  | @tookRetry amb m rest _ _ =>
      obtain ⟨f, -, heq⟩ := takeRetry_fate n m rest amb
      rw [heq]
      exact .idle (by simp [settle]) (hfate _ f)
  | ranKG _ _ _ _ _ =>
      refine .idle rfl fun x hx => ?_
      obtain rfl := eq_of_mem_failures hx
      trivial
  | ranO _ _ _ _ _ =>
      refine .idle rfl fun x hx => ?_
      obtain rfl := eq_of_mem_failures hx
      trivial
  | ranS _ _ _ _ _ _ =>
      refine .idle rfl fun x hx => ?_
      obtain rfl := eq_of_mem_failuresS hx
      trivial

/-! ## What the coordinator keeps -/

/-- The coordinator stays the same server, and its tree only grows. -/
structure Continues (c c' : Coordinator C) : Prop where
  pkStr : c'.pkStr = c.pkStr
  sk : c'.sk = c.sk
  db : FirstWrite.Keeps c.db c'.db

theorem Continues.refl (c : Coordinator C) : Continues c c := ⟨rfl, rfl, .refl _⟩

theorem Continues.of_eq {c c' : Coordinator C} (h : c' = c) : Continues c c' := h ▸ .refl c

theorem Continues.trans {c c' c'' : Coordinator C} (h : Continues c c') (h' : Continues c' c'') :
    Continues c c'' :=
  ⟨h'.pkStr.trans h.pkStr, h'.sk.trans h.sk, h.db.trans h'.db⟩

theorem keeps_saveShare {db db' : Tree C} {amb : Ambient} {s : StoredLocalShare C}
    (h : saveShare db amb s = .ok db') : FirstWrite.Keeps db db' := by
  simp only [saveShare, bind_eq_ok, Tree.compareAndSwap] at h
  obtain ⟨_, -, _, -, h⟩ := h
  split at h
  · cases h
    exact FirstWrite.keeps_put _ _ _
  · cases h

theorem keeps_dbAfterOutputKG (c : Coordinator C)
    (msg : ProtocolOutput KeygenRequest C.LocalKey) (ctx : Ctx) :
    FirstWrite.Keeps c.db (c.dbAfterOutputKG msg ctx) := by
  unfold Coordinator.dbAfterOutputKG
  split
  · exact keeps_saveShare ‹_›
  · exact .refl _

theorem Handled.continues {c c' : Coordinator C} {ctx : Ctx} {m : Mail C}
    {r : Except (Stop String) Unit} {es : List (Effect C)} (h : Handled c ctx m r c' es) :
    Continues c c' := by
  cases h with
  | keygenRequest h =>
      cases h with
      | refused _ => exact .refl _
      | began _ hs => exact ⟨rfl, rfl, hs.keeps⟩
  | signRequest h =>
      cases h with
      | refused _ => exact .refl _
      | mismatched _ hs _ => exact ⟨rfl, rfl, hs.keeps⟩
      | failed _ hs _ _ => exact ⟨rfl, rfl, hs.keeps⟩
      | began _ hs _ _ => exact ⟨rfl, rfl, hs.keeps⟩
  | outgoing _ => exact .refl _
  | outputKG h =>
      cases h with
      | panicked _ => exact .refl _
      | done _ => exact ⟨rfl, rfl, keeps_dbAfterOutputKG _ _ _⟩
  | outputO h => cases h <;> exact ⟨rfl, rfl, .refl _⟩
  | outputS => exact .refl _

theorem Steps.continues {n t : Node C} {e : Event} {o : List (Obs C)} (h : Steps n e t o) :
    Continues n.coordinator t.coordinator := by
  cases h.turns with
  | idle hc _ => exact .of_eq hc
  | handled _ _ hh hc _ _ _ => exact hc ▸ hh.continues

theorem continues_of_run {guard : Node C → Event → Prop} {n₀ n : Node C} {os : List (Obs C)}
    (hrun : Machine.Run step guard n₀ os n) : Continues n₀.coordinator n.coordinator :=
  hrun.invariant (fun _ n => Continues n₀.coordinator n.coordinator) (.refl _) fun _ h _ hs =>
    h.trans (step_cases hs).continues

end Node

end MpcServer

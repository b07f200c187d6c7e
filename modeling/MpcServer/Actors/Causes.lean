import MpcServer.Actors.Steps

/-!
# Nothing waits that was not put there

A retry on the clock, a message in a runner's mailbox and an error report in
the coordinator's all go back to something the node put out before, so what
holds of every retry and every delivery of a trace holds of all that waits.
-/

namespace MpcServer

open Rust Rust.Method Machine

variable {C : Crates}

namespace Node

/-- The copy was handed to a player. -/
def HandedOver (os : List (Obs C)) (a : Arrival) : Prop :=
  (∃ addr m, .effect (.deliverKG addr m) ∈ os ∧ m.wireMessage = a) ∨
    ∃ addr m, .effect (.deliverO addr m) ∈ os ∧ m.wireMessage = a

theorem HandedOver.mono {os os' : List (Obs C)} {a : Arrival} (h : HandedOver os a)
    (hsub : os ⊆ os') : HandedOver os' a :=
  h.imp (fun ⟨addr, m, hm, ha⟩ => ⟨addr, m, hsub hm, ha⟩)
    fun ⟨addr, m, hm, ha⟩ => ⟨addr, m, hsub hm, ha⟩

/-- Everything that waits goes back to the trace. -/
structure Caused (os : List (Obs C)) (n : Node C) : Prop where
  retries : ∀ m, m ∈ n.timers ∨ m ∈ n.notified → ∃ d, .effect (.schedule d m) ∈ os
  inboxKG : ∀ x ∈ n.playersKG, ∀ m ∈ x.mailbox, ∃ a, .effect (.deliverKG a m) ∈ os
  inboxO : ∀ x ∈ n.playersO, ∀ m ∈ x.mailbox, ∃ a, .effect (.deliverO a m) ∈ os
  reports : ∀ m ∈ n.mailbox, ∀ error a, reported m = some (error, a) → HandedOver os a

theorem Caused.init (sk : C.SecretKey) (db : Tree C) : Caused [] (init sk db) where
  retries _ h := by rcases h with h | h <;> cases h
  inboxKG _ h := by cases h
  inboxO _ h := by cases h
  reports _ h := by cases h

section
variable {os o : List (Obs C)} {n t : Node C}

theorem Caused.mono {os' : List (Obs C)} (h : Caused os n) (hsub : os ⊆ os') : Caused os' n where
  retries m hm := (h.retries m hm).imp fun _ hd => hsub hd
  inboxKG x hx m hm := (h.inboxKG x hx m hm).imp fun _ ha => hsub ha
  inboxO x hx m hm := (h.inboxO x hx m hm).imp fun _ ha => hsub ha
  reports m hm error a hr := (h.reports m hm error a hr).mono hsub

/-- Nothing that waits has moved. -/
theorem Caused.still (h : Caused os n) (htimers : t.timers = n.timers)
    (hnotified : t.notified = n.notified) (hKG : t.playersKG = n.playersKG)
    (hO : t.playersO = n.playersO) (hmailbox : t.mailbox = n.mailbox) : Caused os t := by
  refine ⟨?_, ?_, ?_, ?_⟩
  · rw [htimers, hnotified]
    exact h.retries
  · rw [hKG]
    exact h.inboxKG
  · rw [hO]
    exact h.inboxO
  · rw [hmailbox]
    exact h.reports

theorem mem_mailbox_modify_post {σ μ : Type} {l : List (Actor σ μ)} {a : Nat} {m' : μ}
    {x : Actor σ μ} (hx : x ∈ l.modify a (Actor.post m')) {m : μ} (hm : m ∈ x.mailbox) :
    m = m' ∨ ∃ y ∈ l, m ∈ y.mailbox := by
  obtain ⟨i, hi⟩ := List.mem_iff_getElem?.mp hx
  rw [List.getElem?_modify] at hi
  obtain ⟨y, hy, rfl⟩ := Option.map_eq_some_iff.mp hi
  by_cases hai : a = i
  · simp only [hai, if_true, Actor.post] at hm
    split at hm
    · rcases List.mem_append.mp hm with hm | hm
      · exact .inr ⟨y, List.mem_of_getElem? hy, hm⟩
      · exact .inl (List.mem_singleton.mp hm)
    · exact .inr ⟨y, List.mem_of_getElem? hy, hm⟩
  · simp only [hai, if_false] at hm
    exact .inr ⟨y, List.mem_of_getElem? hy, hm⟩

/-- An effect causes what it adds. -/
theorem Caused.applyEffect (h : Caused os n) (e : Effect C) :
    Caused (os ++ [.effect e]) (n.applyEffect e) := by
  have hold : Caused (os ++ [.effect e]) n := h.mono (List.subset_append_left _ _)
  have hnew : .effect e ∈ os ++ [.effect e] := List.mem_append_right _ List.mem_cons_self
  cases e with
  | schedule d m =>
      refine ⟨fun m' hm' => ?_, hold.inboxKG, hold.inboxO, hold.reports⟩
      rcases hm' with hm' | hm'
      · rcases List.mem_append.mp hm' with hm' | hm'
        · exact hold.retries m' (.inl hm')
        · obtain rfl := List.mem_singleton.mp hm'
          exact ⟨d, hnew⟩
      · exact hold.retries m' (.inr hm')
  | deliverKG a m =>
      refine ⟨hold.retries, fun x hx m' hm' => ?_, hold.inboxO, hold.reports⟩
      rcases mem_mailbox_modify_post hx hm' with rfl | ⟨y, hy, hm'⟩
      · exact ⟨a, hnew⟩
      · exact hold.inboxKG y hy m' hm'
  | deliverO a m =>
      refine ⟨hold.retries, hold.inboxKG, fun x hx m' hm' => ?_, hold.reports⟩
      rcases mem_mailbox_modify_post hx hm' with rfl | ⟨y, hy, hm'⟩
      · exact ⟨a, hnew⟩
      · exact hold.inboxO y hy m' hm'
  | startKG a p =>
      refine ⟨hold.retries, fun x hx m' hm' => ?_, hold.inboxO, hold.reports⟩
      rcases List.mem_append.mp hx with hx | hx
      · exact hold.inboxKG x hx m' hm'
      · obtain rfl := List.mem_singleton.mp hx
        cases hm'
  | startO a p =>
      refine ⟨hold.retries, hold.inboxKG, fun x hx m' hm' => ?_, hold.reports⟩
      rcases List.mem_append.mp hx with hx | hx
      · exact hold.inboxO x hx m' hm'
      · obtain rfl := List.mem_singleton.mp hx
        cases hm'
  | _ => exact ⟨hold.retries, hold.inboxKG, hold.inboxO, hold.reports⟩

theorem Caused.applyEffects (h : Caused os n) (es : List (Effect C)) :
    Caused (os ++ es.map .effect) (es.foldl Node.applyEffect n) := by
  induction es generalizing os n with
  | nil => simpa using h
  | cons e es ih => simpa [List.append_assoc] using ih (h.applyEffect e)

theorem Caused.perform {n' : Node C} (h : Caused os n') (m : Coordinator.Call C String Unit) :
    Caused (os ++ (perform n' m).2) (perform n' m).1 := by
  have hnext : Caused os { n' with
      coordinator := (m.run n'.coordinator).2.1
      alive := !isPanic (m.run n'.coordinator).1 } :=
    ⟨h.retries, h.inboxKG, h.inboxO, h.reports⟩
  exact hnext.applyEffects _

/-- A player reports what it was handed. -/
theorem handedOver_mail {I SM β ο : Type} [StateMachine SM β StageError ο]
    {mail : PlayerSend I β StageError ο → Option (Mail C)} {p : MpcPlayer I SM}
    {msg : Option (IncomingMessage (Msg β))} {sends : List (PlayerSend I β StageError ο)}
    (hmail : ∀ {s m error w}, mail s = some m → reported m = some (error, w) →
      ∃ e, s = .error e ∧ e.error = error ∧ e.message.wireMessage = w)
    (hsends : ∀ s ∈ sends, MpcPlayer.Sends p msg s)
    (hin : ∀ m, msg = some m → HandedOver os m.wireMessage) :
    ∀ m ∈ sends.filterMap mail, ∀ error w, reported m = some (error, w) → HandedOver os w := by
  intro m hm error w hr
  obtain ⟨s, hs, hsome⟩ := List.mem_filterMap.mp hm
  obtain ⟨e, rfl, -, rfl⟩ := hmail hsome hr
  exact hin _ (hsends _ hs).2.symm

theorem mem_set_mailbox {σ μ : Type} {l : List (Actor σ μ)} {a : Nat} {x y z : Actor σ μ}
    (hx : x ∈ l) (hz : z ∈ l.set a y) (hsub : ∀ m ∈ y.mailbox, m ∈ x.mailbox) :
    ∀ m ∈ z.mailbox, ∃ w ∈ l, m ∈ w.mailbox := by
  intro m hm
  rcases List.mem_or_eq_of_mem_set hz with hz | rfl
  · exact ⟨z, hz, hm⟩
  · exact ⟨x, hx, hsub m hm⟩

theorem Caused.step {e : Event} (h : Caused os n) (hs : Steps n e t o) : Caused (os ++ o) t := by
  cases hs with
  | skipped _ => simpa using h
  | lost _ => simpa using h
  | finished _ => exact (h.mono (List.subset_append_left _ _)).still rfl rfl rfl rfl rfl
  | attempted _ _ _ => exact (h.mono (List.subset_append_left _ _)).still rfl rfl rfl rfl rfl
  | queued _ =>
      refine ⟨by simpa using h.retries, by simpa using h.inboxKG, by simpa using h.inboxO,
        fun m hm error a hr => ?_⟩
      rw [List.append_nil]
      rcases List.mem_append.mp hm with hm | hm
      · exact h.reports m hm error a hr
      · obtain rfl := List.mem_singleton.mp hm
        cases hr
  | @received _ amb w _ _ =>
      -- the reception is noted first; what its handler does comes on top
      have hseen : Caused (os ++ [.received n.nextOrigin w])
          { n with nextOrigin := n.nextOrigin + 1 } := by
        have hold := h.mono (List.subset_append_left os [.received n.nextOrigin w])
        exact ⟨hold.retries, hold.inboxKG, hold.inboxO, hold.reports⟩
      have hdone := hseen.perform (Coordinator.handleCoordinatorMessage
        (.incoming ⟨w, n.nextOrigin⟩) (n.ctx amb))
      rwa [List.append_assoc] at hdone
  | @tookMail amb m rest _ hbox =>
      have hseen : Caused (os ++ [.handled m]) { n with mailbox := rest } := by
        have hold := h.mono (List.subset_append_left os [.handled m])
        refine ⟨hold.retries, hold.inboxKG, hold.inboxO, fun m' hm' => hold.reports m' ?_⟩
        rw [hbox]
        exact List.mem_cons_of_mem _ hm'
      have hdone := hseen.perform (handleMail (n.ctx amb) m)
      rwa [List.append_assoc] at hdone
  | @fired i m hget =>
      rw [List.append_nil]
      exact ⟨fun m' hm' => h.retries m' (mem_of_fired hget hm'), h.inboxKG, h.inboxO, h.reports⟩
  | @tookRetry amb m rest _ hbox =>
      have hseen : Caused os { n with notified := rest } := by
        refine ⟨fun m' hm' => h.retries m' (hm'.imp_right fun hm' => ?_), h.inboxKG, h.inboxO,
          h.reports⟩
        rw [hbox]
        exact List.mem_cons_of_mem _ hm'
      exact hseen.perform (Coordinator.handleCoordinatorMessage (.retry m) (n.ctx amb))
  | @ranKG _ a now x rest msg hget _ hbox _ =>
      have hx := List.mem_of_getElem? hget
      -- what is reported is the message taken up, and that one had been delivered
      have hin : ∀ m, msg = some m → HandedOver os m.wireMessage := by
        rintro m rfl
        obtain ⟨addr, haddr⟩ := h.inboxKG x hx m (by simp [hbox])
        exact .inl ⟨addr, m, haddr, rfl⟩
      refine Caused.mono ⟨h.retries, fun y hy m hm => ?_, h.inboxO, fun m hm => ?_⟩
        (List.subset_append_left os _)
      · obtain ⟨z, hz, hm⟩ := mem_set_mailbox hx hy
          (fun m hm => by simpa [hbox] using .inr hm) m hm
        exact h.inboxKG z hz m hm
      · exact (List.mem_append.mp hm).elim (h.reports m)
          (handedOver_mail reported_mailKG (callKG_keeps _ _ _).2 hin m)
  | @ranO _ a now x rest msg hget _ hbox _ =>
      have hx := List.mem_of_getElem? hget
      have hin : ∀ m, msg = some m → HandedOver os m.wireMessage := by
        rintro m rfl
        obtain ⟨addr, haddr⟩ := h.inboxO x hx m (by simp [hbox])
        exact .inr ⟨addr, m, haddr, rfl⟩
      refine Caused.mono ⟨h.retries, h.inboxKG, fun y hy m hm => ?_, fun m hm => ?_⟩
        (List.subset_append_left os _)
      · obtain ⟨z, hz, hm⟩ := mem_set_mailbox hx hy
          (fun m hm => by simpa [hbox] using .inr hm) m hm
        exact h.inboxO z hz m hm
      · exact (List.mem_append.mp hm).elim (h.reports m)
          (handedOver_mail reported_mailO (callO_keeps _ _ _).2 hin m)
  | ranS msg _ _ _ _ _ =>
      refine Caused.mono ⟨h.retries, h.inboxKG, h.inboxO, fun m hm error a hr => ?_⟩
        (List.subset_append_left os _)
      rcases List.mem_append.mp hm with hm | hm
      · exact h.reports m hm error a hr
      · obtain ⟨s, -, hs⟩ := List.mem_filterMap.mp hm
        cases s <;> cases hs <;> cases hr

end

/-- **Everything that waits was put there.** -/
theorem caused_of_run {guard : Node C → Event → Prop} {sk : C.SecretKey} {db : Tree C}
    {os : List (Obs C)} {n : Node C} (hrun : Run step guard (init sk db) os n) : Caused os n :=
  hrun.invariant _ (.init sk db) fun _ h _ hs => h.step (step_cases hs)

end Node

end MpcServer

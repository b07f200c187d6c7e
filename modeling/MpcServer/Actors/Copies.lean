import MpcServer.Actors.Causes

/-!
# What is known of a copy

Copies of an envelope that have not passed the check and copies that have travel
side by side: scheduled, retried, handed to runners, reported back. Two
predicates say what is known of them, `Raw` of the first and `Vetted` of the
second. If a run keeps both, if what arrives is raw and what passes the check
becomes vetted, then every retry and every delivery is known.
-/

namespace MpcServer

open Rust Rust.Method Machine

variable {C : Crates}

namespace Node

/-- The copy a runner is handed. -/
def handedCopy : Obs C → Option Arrival
  | .effect (.deliverKG _ m) => some m.wireMessage
  | .effect (.deliverO _ m) => some m.wireMessage
  | .effect (.deliverS _ m) => some m.wireMessage
  | _ => none

/-- A runner is handed the copy under its room, with what its payload reads as. -/
inductive Delivers (a : Arrival) : Obs C → Prop
  | keygen {b m} : C.msgKG.read a.payload = some m →
      Delivers a (.effect (.deliverKG b { room := a.room, wireMessage := a, message := m }))
  | offline {b m} : C.msgO.read a.payload = some m →
      Delivers a (.effect (.deliverO b { room := a.room, wireMessage := a, message := m }))
  | sign {b m} : C.msgS.read a.payload = some m →
      Delivers a (.effect (.deliverS b { room := a.room, wireMessage := a, message := m }))

/-- The copy that an event puts before the check. -/
def checkedAt (n : Node C) : Event → Option (Arrival × Ambient)
  | .wire item amb => (n.arriving item).map fun w => (⟨w, n.nextOrigin⟩, amb)
  | .retry amb => match n.notified with
    | m :: _ => if m.checkPassed then none else some (m.message, amb)
    | [] => none
  | _ => none

/-! ## One handler call -/

section
variable {Raw Vetted : Arrival → Prop}

/-- A retry is known by its flag. -/
def Flagged (Raw Vetted : Arrival → Prop) (m : RetryMessage) : Prop :=
  (m.checkPassed = false → Raw m.message) ∧ (m.checkPassed = true → Vetted m.message)

/-- What a fate leaves going is known. -/
def Leaves (Raw Vetted : Arrival → Prop) : Fate → Prop
  | .gone | .panicked => True
  | .retried m => Flagged Raw Vetted m
  | .delivered a => Vetted a

/-- An observation of a retry or a delivery that is known. -/
structure Known (Raw Vetted : Arrival → Prop) (x : Obs C) : Prop where
  retried : ∀ d m, x = .effect (.schedule d m) → Flagged Raw Vetted m
  delivered : ∀ a, handedCopy x = some a → Delivers a x ∧ Vetted a

theorem Known.mono {Raw' Vetted' : Arrival → Prop} {x : Obs C} (h : Known Raw Vetted x)
    (hraw : ∀ a, Raw a → Raw' a) (hvetted : ∀ a, Vetted a → Vetted' a) :
    Known Raw' Vetted' x where
  retried d m hm :=
    ⟨fun hp => hraw _ ((h.retried d m hm).1 hp), fun hp => hvetted _ ((h.retried d m hm).2 hp)⟩
  delivered a ha := ⟨(h.delivered a ha).1, hvetted a (h.delivered a ha).2⟩

/-- Nothing is said of any copy. -/
theorem Known.silent {x : Obs C} (hschedule : ∀ d m, x ≠ .effect (.schedule d m))
    (hhanded : handedCopy x = none) : Known Raw Vetted x where
  retried d m hm := absurd hm (hschedule d m)
  delivered _ ha := by cases hhanded.symm.trans ha

theorem Known.of_quiet {e : Effect C} (h : Quiet e) : Known Raw Vetted (.effect e) :=
  .silent (by rintro d m ⟨⟩; exact h) (by cases e <;> first | rfl | cases h)

theorem Known.of_delivery {μ : Type} {codec : Serde (Msg μ) String}
    {deliver : Addr → IncomingMessage (Msg μ) → Effect C} {runners : String → Option Addr}
    {e : Effect C} {a : Arrival} (ha : Vetted a)
    (he : Coordinator.delivery runners codec deliver a = some e)
    (hsilent : ∀ b m d r, Obs.effect (deliver b m) ≠ .effect (.schedule d r))
    (hcopy : ∀ b m, handedCopy (.effect (deliver b m)) = some m.wireMessage)
    (hdelivers : ∀ b m, codec.read a.payload = some m →
      Delivers a (.effect (deliver b { room := a.room, wireMessage := a, message := m }))) :
    Known Raw Vetted (.effect e) := by
  unfold Coordinator.delivery at he
  obtain ⟨b, -, he⟩ := Option.bind_eq_some_iff.mp he
  obtain ⟨m, hm, rfl⟩ := Option.map_eq_some_iff.mp he
  refine ⟨fun d r h => absurd h (hsilent _ _ d r), fun a' ha' => ?_⟩
  rw [hcopy] at ha'
  cases ha'
  exact ⟨hdelivers b m hm, ha⟩

/-- A fate makes its copy's retry and deliveries known. -/
theorem known_effects (c : Coordinator C) {f : Fate} (hf : Leaves Raw Vetted f) :
    ∀ x ∈ (c.effects f).map Obs.effect, Known Raw Vetted x := by
  intro x hx
  obtain ⟨e, he, rfl⟩ := List.mem_map.mp hx
  cases f with
  | gone => cases he
  | panicked => cases he
  | retried m =>
      simp only [Coordinator.effects, Coordinator.retryEffects] at he
      split at he
      · obtain rfl := List.mem_singleton.mp he
        exact .silent (by rintro _ _ ⟨⟩) rfl
      · obtain rfl := List.mem_singleton.mp he
        refine ⟨?_, fun _ ha => by cases ha⟩
        rintro d m' ⟨⟩
        exact hf
  | delivered a =>
      simp only [Coordinator.effects, Coordinator.deliveries, List.mem_append,
        Option.mem_toList] at he
      rcases he with (he | he) | he
      · exact .of_delivery hf he (by rintro _ _ _ _ ⟨⟩) (fun _ _ => rfl) fun _ _ => .offline
      · exact .of_delivery hf he (by rintro _ _ _ _ ⟨⟩) (fun _ _ => rfl) fun _ _ => .sign
      · exact .of_delivery hf he (by rintro _ _ _ _ ⟨⟩) (fun _ _ => rfl) fun _ _ => .keygen

theorem leaves_of_routed {c : Coordinator C} {a : Arrival} {initTs : Nat} {attempts : UInt16}
    {f : Fate} (h : Coordinator.Routed c a initTs attempts f) (ha : Vetted a) :
    Leaves Raw Vetted f := by
  cases h with
  | delivered _ => exact ha
  | retried _ _ => exact ⟨by rintro ⟨⟩, fun _ => ha⟩
  | panicked _ _ => trivial

theorem leaves_of_incoming {c : Coordinator C} {ctx : Ctx} {a : Arrival} {f : Fate}
    (h : Coordinator.Incoming c ctx a f) (hraw : Raw a)
    (hpasses : ∀ a', Coordinator.Passes c ctx.toAmbient a a' → Vetted a') :
    Leaves Raw Vetted f := by
  cases h with
  | unknown _ _ => exact ⟨fun _ => hraw, by rintro ⟨⟩⟩
  | passed hp hr => exact leaves_of_routed hr (hpasses _ hp)
  | _ => trivial

theorem leaves_of_retried {c : Coordinator C} {ctx : Ctx} {m : RetryMessage} {f : Fate}
    (h : Coordinator.Retried c ctx m f) (hm : Flagged Raw Vetted m)
    (hpasses : m.checkPassed = false →
      ∀ a', Coordinator.Passes c ctx.toAmbient m.message a' → Vetted a') :
    Leaves Raw Vetted f := by
  cases h with
  | checked hp hr => exact leaves_of_routed hr (hm.2 hp)
  | passed hp hpass hr => exact leaves_of_routed hr (hpasses hp _ hpass)
  | failed hp _ _ => exact ⟨fun _ => hm.1 hp, by rintro ⟨⟩⟩
  | unwrapped _ _ => trivial
  | overflowed _ _ _ => trivial

theorem leaves_of_error {ctx : Ctx} {error : StageError} {a : Arrival} (ha : Vetted a) :
    Leaves Raw Vetted (Coordinator.fateOfError error a ctx) := by
  cases error with
  | receivedOutOfOrderMessage _ _ => exact ⟨by rintro ⟨⟩, fun _ => ha⟩
  | other _ => trivial

end

/-! ## Runs -/

/-- What the steps of guarded runs from `n₀` make of raw and vetted copies. -/
structure CopyLaws (guard : Node C → Event → Prop) (n₀ : Node C)
    (Raw Vetted : List (Obs C) → Node C → Arrival → Prop) : Prop where
  raw : ∀ {os n e t o a}, Run step guard n₀ os n → guard n e → n.step e = some (t, o) →
    Raw os n a → Raw (os ++ o) t a
  vetted : ∀ {os n e t o a}, Run step guard n₀ os n → guard n e → n.step e = some (t, o) →
    Vetted os n a → Vetted (os ++ o) t a
  received : ∀ {os n item amb w t o}, Run step guard n₀ os n →
    n.step (.wire item amb) = some (t, o) → n.arriving item = some w →
    .received n.nextOrigin w ∈ o → Raw (os ++ o) t ⟨w, n.nextOrigin⟩
  passed : ∀ {os n e t o a a' amb}, Run step guard n₀ os n → guard n e →
    n.step e = some (t, o) → n.checkedAt e = some (a, amb) → Raw (os ++ o) t a →
    Coordinator.Passes n.coordinator amb a a' → Vetted (os ++ o) t a'

section
variable {guard : Node C → Event → Prop} {n₀ : Node C}
  {Raw Vetted : List (Obs C) → Node C → Arrival → Prop} {os o : List (Obs C)} {n t : Node C}

theorem known_step (laws : CopyLaws guard n₀ Raw Vetted) (hcaused : Caused os n)
    (hrun : Run step guard n₀ os n) (hknown : ∀ x ∈ os, Known (Raw os n) (Vetted os n) x)
    {e : Event} (hg : guard n e) (hs : n.step e = some (t, o)) :
    ∀ x ∈ os ++ o, Known (Raw (os ++ o) t) (Vetted (os ++ o) t) x := by
  have hraw : ∀ a, Raw os n a → Raw (os ++ o) t a := fun a => laws.raw hrun hg hs
  have hvet : ∀ a, Vetted os n a → Vetted (os ++ o) t a := fun a => laws.vetted hrun hg hs
  intro x hx
  refine (List.mem_append.mp hx).elim (fun hx => (hknown x hx).mono hraw hvet) fun hx => ?_
  -- what is reported back had been checked before it was handed over
  have hhanded : ∀ a, HandedOver os a → Vetted (os ++ o) t a := by
    rintro a (⟨addr, m, hm, rfl⟩ | ⟨addr, m, hm, rfl⟩)
    · exact hvet _ ((hknown _ hm).delivered _ rfl).2
    · exact hvet _ ((hknown _ hm).delivered _ rfl).2
  have hpassed : ∀ {a a' amb}, n.checkedAt e = some (a, amb) → Raw (os ++ o) t a →
      Coordinator.Passes n.coordinator amb a a' → Vetted (os ++ o) t a' :=
    laws.passed hrun hg hs
  cases step_cases hs with
  | skipped _ => cases hx
  | lost _ => cases hx
  | finished _ =>
      obtain rfl := List.mem_singleton.mp hx
      exact .silent (by rintro _ _ ⟨⟩) rfl
  | attempted _ _ _ =>
      obtain rfl := List.mem_singleton.mp hx
      exact .silent (by rintro _ _ ⟨⟩) rfl
  | queued _ => cases hx
  | @received item amb w halive harr =>
      have hrecv := laws.received hrun hs harr List.mem_cons_self
      obtain ⟨f, hf, heq⟩ := receive_fate n w amb
      rw [heq] at hx
      rcases List.mem_cons.mp hx with rfl | hx
      · exact .silent (by rintro _ _ ⟨⟩) rfl
      · refine known_effects n.coordinator (leaves_of_incoming hf hrecv fun a' hp => ?_) x hx
        exact hpassed (by simp [checkedAt, harr]; rfl) hrecv hp
  | @tookMail amb m rest halive hbox =>
      cases hm : reported m with
      | some r =>
          obtain ⟨error, a⟩ := r
          rw [takeMail_reported n hm] at hx
          rcases List.mem_cons.mp hx with rfl | hx
          · exact .silent (by rintro _ _ ⟨⟩) rfl
          · have ha := hhanded a (hcaused.reports m (hbox ▸ List.mem_cons_self) _ _ hm)
            exact known_effects n.coordinator (leaves_of_error ha) x hx
      | none =>
          obtain ⟨r, c, es, hh, heq⟩ := takeMail_handled n hm rest amb
          rw [heq] at hx
          rcases List.mem_cons.mp hx with rfl | hx
          · exact .silent (by rintro _ _ ⟨⟩) rfl
          · obtain ⟨e, he, rfl⟩ := List.mem_map.mp hx
            exact .of_quiet (hh.quiet e he)
  | fired _ => cases hx
  | @tookRetry amb m rest halive hbox =>
      obtain ⟨d, hd⟩ := hcaused.retries m (.inr (hbox ▸ List.mem_cons_self))
      -- the retry was scheduled by an effect that is known
      have hm := ((hknown _ hd).mono hraw hvet).retried d m rfl
      obtain ⟨f, hf, heq⟩ := takeRetry_fate n m rest amb
      rw [heq] at hx
      refine known_effects n.coordinator (leaves_of_retried hf hm fun hp a' hpass => ?_) x hx
      exact hpassed (by simp [checkedAt, hbox, hp]; rfl) (hm.1 hp) hpass
  | ranKG _ _ _ _ _ =>
      obtain rfl := eq_of_mem_failures hx
      exact .silent (by rintro _ _ ⟨⟩) rfl
  | ranO _ _ _ _ _ =>
      obtain rfl := eq_of_mem_failures hx
      exact .silent (by rintro _ _ ⟨⟩) rfl
  | ranS _ _ _ _ _ _ =>
      obtain rfl := eq_of_mem_failuresS hx
      exact .silent (by rintro _ _ ⟨⟩) rfl

/-- **Every retry and every delivery of a run is known.** -/
theorem known_of_run {sk : C.SecretKey} {db : Tree C}
    (laws : CopyLaws guard (init sk db) Raw Vetted) (hrun : Run step guard (init sk db) os n) :
    ∀ x ∈ os, Known (Raw os n) (Vetted os n) x :=
  hrun.invariant (fun os n => ∀ x ∈ os, Known (Raw os n) (Vetted os n) x) (by simp)
    fun hr h hg hs => known_step laws (caused_of_run hr) hr h hg hs

/-- So is every retry that waits. -/
theorem flagged_of_pending {sk : C.SecretKey} {db : Tree C}
    (laws : CopyLaws guard (init sk db) Raw Vetted) (hrun : Run step guard (init sk db) os n)
    {m : RetryMessage} (hm : m ∈ n.timers ∨ m ∈ n.notified) :
    Flagged (Raw os n) (Vetted os n) m := by
  obtain ⟨d, hd⟩ := (caused_of_run hrun).retries m hm
  exact (known_of_run laws hrun _ hd).retried d m rfl

end

end Node

end MpcServer

import MpcServer.Actors.Steps

/-!
# Who the runners are

A runner keeps its input, its room and its index, so the runners of a node
can be read off the trace, in the order they were started. What a runner hands
the coordinator as its output carries its own input.
-/

namespace MpcServer

open Rust Rust.Method Machine

variable {C : Crates}

namespace MpcPlayer

/-- What a player is started with, and keeps. -/
structure Identity (I : Type) where
  input : I
  room : String
  index : UInt16

variable {I SM : Type}

/-- The identity of a player. -/
def identity (p : MpcPlayer I SM) : Identity I :=
  { input := p.input, room := p.room, index := p.index }

theorem Same.identity {p q : MpcPlayer I SM} (h : Same p q) : q.identity = p.identity := by
  obtain ⟨hinput, hroom, hindex⟩ := h
  simp [MpcPlayer.identity, hinput, hroom, hindex]

end MpcPlayer

namespace Signer

variable (C) in
/-- What a signer is started with, and keeps. -/
structure Identity where
  input : EnrichedSignRequest
  task : SignTask C

/-- The identity of a signer. -/
def identity (s : Signer C) : Identity C := { input := s.input, task := s.task }

theorem Same.identity {s r : Signer C} (h : Same s r) : r.identity = s.identity := by
  obtain ⟨hinput, htask⟩ := h
  simp [Signer.identity, hinput, htask]

end Signer

@[simp] theorem Actor.post_state {σ μ : Type} (m : μ) (x : Actor σ μ) :
    (x.post m).state = x.state := by
  unfold Actor.post
  split <;> rfl

namespace Node

/-! ## The runners of a node -/

/-- The keygen players, in the order of their starts. -/
def identitiesKG (n : Node C) : List (MpcPlayer.Identity KeygenRequest) :=
  n.playersKG.map (·.state.identity)

/-- The offline players, in the order of their starts. -/
def identitiesO (n : Node C) : List (MpcPlayer.Identity EnrichedSignRequest) :=
  n.playersO.map (·.state.identity)

/-- The signers, in the order of their starts. -/
def identitiesS (n : Node C) : List (Signer.Identity C) := n.signers.map (·.state.identity)

/-- The keygen player that a step starts. -/
def startedKG : Obs C → Option (MpcPlayer.Identity KeygenRequest)
  | .effect (.startKG _ p) => some p.identity
  | _ => none

/-- The offline player that a step starts. -/
def startedO : Obs C → Option (MpcPlayer.Identity EnrichedSignRequest)
  | .effect (.startO _ p) => some p.identity
  | _ => none

/-- The signer that a step starts. -/
def startedS : Obs C → Option (Signer.Identity C)
  | .effect (.startS _ s) => some s.identity
  | _ => none

/-! ## Nobody changes -/

theorem map_modify_of_eq {α β : Type} {f : α → α} {g : α → β} (h : ∀ x, g (f x) = g x)
    (l : List α) (i : Nat) : (l.modify i f).map g = l.map g := by
  refine List.ext_getElem? fun j => ?_
  rw [List.getElem?_map, List.getElem?_map, List.getElem?_modify]
  cases l[j]? with
  | none => rfl
  | some x => by_cases hij : i = j <;> simp [hij, h]

theorem map_set_of_eq {α β : Type} {g : α → β} {l : List α} {i : Nat} {x y : α}
    (hget : l[i]? = some x) (h : g y = g x) : (l.set i y).map g = l.map g := by
  obtain ⟨hi, rfl⟩ := List.getElem?_eq_some_iff.mp hget
  have hself := List.set_getElem_self (show i < (l.map g).length by simpa using hi)
  rw [List.getElem_map] at hself
  rw [List.map_set, h, hself]

/-- The runners of a kind that a handler of the coordinator starts are all it adds. -/
theorem identities_perform {α : Type} {identities : Node C → List α} {started : Obs C → Option α}
    (happly : ∀ n e, identities (applyEffect n e) = identities n ++ (started (.effect e)).toList)
    {n n' : Node C} (hsame : ∀ c up,
      identities { n' with coordinator := c, alive := up } = identities n)
    (h : Coordinator.Call C String Unit) :
    identities (perform n' h).1 = identities n ++ (perform n' h).2.filterMap started := by
  rw [perform, List.filterMap_map, ← hsame]
  exact applyEffects_appends happly _ _

theorem afterKG_identitiesKG {n : Node C} {a now : Nat}
    {x : Actor (PlayerKG C) (IncomingKG C)} (hget : n.playersKG[a]? = some x)
    (rest : List (IncomingKG C)) (msg : Option (IncomingKG C)) :
    (n.afterKG a rest (callKG x.state now msg)).1.identitiesKG = n.identitiesKG :=
  map_set_of_eq hget (callKG_keeps x.state now msg).1.identity

theorem afterO_identitiesO {n : Node C} {a now : Nat}
    {x : Actor (PlayerO C) (IncomingO C)} (hget : n.playersO[a]? = some x)
    (rest : List (IncomingO C)) (msg : Option (IncomingO C)) :
    (n.afterO a rest (callO x.state now msg)).1.identitiesO = n.identitiesO :=
  map_set_of_eq hget (callO_keeps x.state now msg).1.identity

theorem afterS_identitiesS {n : Node C} {a : Nat}
    {x : Actor (Signer C) (IncomingS C)} (hget : n.signers[a]? = some x)
    (rest : List (IncomingS C)) (msg : Option (IncomingS C)) :
    (n.afterS a rest (callS x.state msg)).1.identitiesS = n.identitiesS :=
  map_set_of_eq hget (callS_keeps x.state msg).1.identity

/-- Nothing a step puts out starts a runner that the node does not get, and
none it has is another one afterwards. -/
structure Grows (n t : Node C) (o : List (Obs C)) : Prop where
  keygen : t.identitiesKG = n.identitiesKG ++ o.filterMap startedKG
  offline : t.identitiesO = n.identitiesO ++ o.filterMap startedO
  signers : t.identitiesS = n.identitiesS ++ o.filterMap startedS

/-- No runner is started. -/
def StartsNobody (x : Obs C) : Prop :=
  startedKG x = none ∧ startedO x = none ∧ startedS x = none

section
variable {o : List (Obs C)} (h : ∀ x ∈ o, StartsNobody x)
include h

theorem startedKG_nil : o.filterMap startedKG = [] :=
  List.filterMap_eq_nil_iff.mpr fun x hx => (h x hx).1

theorem startedO_nil : o.filterMap startedO = [] :=
  List.filterMap_eq_nil_iff.mpr fun x hx => (h x hx).2.1

theorem startedS_nil : o.filterMap startedS = [] :=
  List.filterMap_eq_nil_iff.mpr fun x hx => (h x hx).2.2

end

section
variable {n n' t : Node C} {o : List (Obs C)}

theorem Grows.still (hKG : t.identitiesKG = n.identitiesKG) (hO : t.identitiesO = n.identitiesO)
    (hS : t.identitiesS = n.identitiesS) (ho : ∀ x ∈ o, StartsNobody x) : Grows n t o where
  keygen := by rw [hKG, startedKG_nil ho, List.append_nil]
  offline := by rw [hO, startedO_nil ho, List.append_nil]
  signers := by rw [hS, startedS_nil ho, List.append_nil]

theorem Grows.cons {x : Obs C} (hx : StartsNobody x) (h : Grows n t o) : Grows n t (x :: o) where
  keygen := by rw [h.keygen, List.filterMap_cons_none hx.1]
  offline := by rw [h.offline, List.filterMap_cons_none hx.2.1]
  signers := by rw [h.signers, List.filterMap_cons_none hx.2.2]

/-- The runners a handler of the coordinator starts are all it adds. -/
theorem Grows.perform (h : Coordinator.Call C String Unit)
    (hKG : n'.playersKG = n.playersKG) (hO : n'.playersO = n.playersO)
    (hS : n'.signers = n.signers) : Grows n (perform n' h).1 (perform n' h).2 where
  keygen := identities_perform
    (fun n e => by cases e <;> simp [applyEffect, identitiesKG, startedKG, map_modify_of_eq])
    (fun _ _ => by simp [identitiesKG, hKG]) h
  offline := identities_perform
    (fun n e => by cases e <;> simp [applyEffect, identitiesO, startedO, map_modify_of_eq])
    (fun _ _ => by simp [identitiesO, hO]) h
  signers := identities_perform
    (fun n e => by cases e <;> simp [applyEffect, identitiesS, startedS, map_modify_of_eq])
    (fun _ _ => by simp [identitiesS, hS]) h

theorem startsNobody_of_failure {I β ε ο : Type} {x : Obs C} (hx : StartsNobody x)
    {sends : List (PlayerSend I β ε ο)} : ∀ y ∈ sends.filterMap (failureOf x), StartsNobody y := by
  intro y hy
  obtain rfl := eq_of_mem_failures hy
  exact hx

theorem startsNobody_of_failureS {x : Obs C} (hx : StartsNobody x)
    {sends : List (SignerSend C)} : ∀ y ∈ sends.filterMap (failureOfS x), StartsNobody y := by
  intro y hy
  obtain rfl := eq_of_mem_failuresS hy
  exact hx

end

theorem Steps.grows {n t : Node C} {e : Event} {o : List (Obs C)} (h : Steps n e t o) :
    Grows n t o := by
  cases h with
  | skipped _ => exact .still rfl rfl rfl (by simp)
  | lost _ => exact .still rfl rfl rfl (by simp)
  | finished _ => exact .still rfl rfl rfl (List.forall_mem_singleton.mpr ⟨rfl, rfl, rfl⟩)
  | attempted _ _ _ => exact .still rfl rfl rfl (List.forall_mem_singleton.mpr ⟨rfl, rfl, rfl⟩)
  | queued _ => exact .still rfl rfl rfl (by simp)
  | received _ _ => exact .cons ⟨rfl, rfl, rfl⟩ (.perform _ rfl rfl rfl)
  | tookMail _ _ => exact .cons ⟨rfl, rfl, rfl⟩ (.perform _ rfl rfl rfl)
  | fired _ => exact .still rfl rfl rfl (by simp)
  | tookRetry _ _ => exact .perform _ rfl rfl rfl
  | ranKG msg hget _ _ _ =>
      exact .still (afterKG_identitiesKG hget _ msg) rfl rfl
        (startsNobody_of_failure ⟨rfl, rfl, rfl⟩)
  | ranO msg hget _ _ _ =>
      exact .still rfl (afterO_identitiesO hget _ msg) rfl
        (startsNobody_of_failure ⟨rfl, rfl, rfl⟩)
  | ranS msg hget _ _ _ _ =>
      exact .still rfl rfl (afterS_identitiesS hget _ msg)
        (startsNobody_of_failureS ⟨rfl, rfl, rfl⟩)

theorem startsNobody_of_idle {x : Obs C} (h : Idle x) : StartsNobody x := by
  cases x with
  | effect e => cases e <;> first | exact ⟨rfl, rfl, rfl⟩ | cases h
  | _ => exact ⟨rfl, rfl, rfl⟩

theorem startsNobody_of_sends {es : List (Effect C)} (h : ∀ e ∈ es, ∃ m, e = .send m) :
    ∀ x ∈ es.map Obs.effect, StartsNobody x := by
  intro x hx
  obtain ⟨e, he, rfl⟩ := List.mem_map.mp hx
  obtain ⟨m, rfl⟩ := h e he
  exact ⟨rfl, rfl, rfl⟩

/-- The session a step begins, if it begins one: the handler of a request
registers its player. -/
inductive Begins (n : Node C) (o : List (Obs C)) : Prop
  | nothing : o.filterMap startedKG = [] → o.filterMap startedO = [] → Begins n o
  | keygen {req group i state} : .handled (.request (.keygen req)) ∈ o →
      Coordinator.BeginsKeygen n.coordinator req group i state →
      o.filterMap startedKG =
        [{ input := req, room := makeRoomId req.requestId group.groupId, index := i }] →
      o.filterMap startedO = [] → Begins n o
  | sign {req ctx share group subgroup sL i state} : .handled (.request (.sign req)) ∈ o →
      Coordinator.FindsGroups n.coordinator req ctx share group subgroup →
      Coordinator.FindsParticipants req share group sL →
      Coordinator.BeginsOffline share group subgroup sL i state →
      o.filterMap startedKG = [] →
      o.filterMap startedO =
        [{ input := Coordinator.enrich req subgroup i sL
           room := (Coordinator.enrich req subgroup i sL).room, index := i }] → Begins n o

theorem Steps.begins {n t : Node C} {e : Event} {o : List (Obs C)} (hs : Steps n e t o) :
    Begins n o := by
  cases hs.turns with
  | idle _ ho =>
      have hnobody := fun x hx => startsNobody_of_idle (ho x hx)
      exact .nothing (startedKG_nil hnobody) (startedO_nil hnobody)
  | @handled amb _ rest _ c es _ _ hh _ _ _ ho =>
      subst ho
      cases hh with
      | keygenRequest hk =>
          cases hk with
          | refused _ => exact .nothing rfl rfl
          | began hbegins _ => exact .keygen List.mem_cons_self hbegins rfl rfl
      | signRequest hk =>
          cases hk with
          | began hgroups _ hparts hbegins =>
              exact .sign List.mem_cons_self hgroups hparts hbegins rfl rfl
          | _ => exact .nothing rfl rfl
      | @outgoing msg _ hes =>
          have hnobody : ∀ x ∈ .handled (.outgoing msg) :: es.map Obs.effect, StartsNobody x :=
            List.forall_mem_cons.mpr ⟨⟨rfl, rfl, rfl⟩, startsNobody_of_sends hes⟩
          exact .nothing (startedKG_nil hnobody) (startedO_nil hnobody)
      | outputKG hk => cases hk <;> exact .nothing rfl rfl
      | outputO hk => cases hk <;> exact .nothing rfl rfl
      | outputS => exact .nothing rfl rfl

/-- The input of an offline player names the room it is registered under. -/
theorem room_of_identityO {n t : Node C} {e : Event} {o : List (Obs C)} (hs : Steps n e t o)
    (h : ∀ i ∈ n.identitiesO, i.input.room = i.room) :
    ∀ i ∈ t.identitiesO, i.input.room = i.room := by
  rw [hs.grows.offline]
  cases hs.begins with
  | nothing _ ho => rwa [ho, List.append_nil]
  | keygen _ _ _ ho => rwa [ho, List.append_nil]
  | sign _ _ _ _ _ ho =>
      rw [ho]
      exact List.forall_mem_append.mpr ⟨h, List.forall_mem_singleton.mpr rfl⟩

/-- A keygen player is started where its request is taken up. -/
theorem Steps.requestedKG {n t : Node C} {e : Event} {o : List (Obs C)} (hs : Steps n e t o) :
    ∀ i ∈ o.filterMap startedKG, .handled (.request (.keygen i.input)) ∈ o := by
  cases hs.begins with
  | nothing ho _ => simp [ho]
  | keygen hmem _ ho _ => simpa [ho] using hmem
  | sign _ _ _ _ ho _ => simp [ho]

/-! ## Outputs are signed by their runner -/

/-- The output in a mail carries the input of the runner it is from. -/
def FromRunner (n : Node C) : Mail C → Prop
  | .outputKG a out => ∃ i, n.identitiesKG[a]? = some i ∧ out.input = i.input
  | .outputO a out => ∃ i, n.identitiesO[a]? = some i ∧ out.input = i.input
  | .outputS a out => ∃ i, n.identitiesS[a]? = some i ∧ out.input = i.input
  | _ => True

theorem getElem?_append_of_some {α : Type} {l l' : List α} {i : Nat} {x : α}
    (h : l[i]? = some x) : (l ++ l')[i]? = some x := by
  rw [List.getElem?_append_left (List.getElem?_eq_some_iff.mp h).1, h]

theorem FromRunner.grows {n t : Node C} {o : List (Obs C)} {m : Mail C} (h : FromRunner n m)
    (hg : Grows n t o) : FromRunner t m := by
  cases m with
  | outputKG a out =>
      obtain ⟨i, hi, hin⟩ := h
      exact ⟨i, by rw [hg.keygen]; exact getElem?_append_of_some hi, hin⟩
  | outputO a out =>
      obtain ⟨i, hi, hin⟩ := h
      exact ⟨i, by rw [hg.offline]; exact getElem?_append_of_some hi, hin⟩
  | outputS a out =>
      obtain ⟨i, hi, hin⟩ := h
      exact ⟨i, by rw [hg.signers]; exact getElem?_append_of_some hi, hin⟩
  | _ => trivial

theorem fromRunner_mailKG {n : Node C} {a now : Nat} {x : Actor (PlayerKG C) (IncomingKG C)}
    (hget : n.playersKG[a]? = some x) (msg : Option (IncomingKG C)) :
    ∀ m ∈ (callKG x.state now msg).2.2.filterMap (mailKG a), FromRunner n m := by
  intro m hm
  obtain ⟨s, hs, hmail⟩ := List.mem_filterMap.mp hm
  have hsend := (callKG_keeps x.state now msg).2 s hs
  cases s <;> cases hmail
  case error => trivial
  case outgoing => trivial
  case output out => exact ⟨x.state.identity, by simp [identitiesKG, hget], hsend⟩

theorem fromRunner_mailO {n : Node C} {a now : Nat} {x : Actor (PlayerO C) (IncomingO C)}
    (hget : n.playersO[a]? = some x) (msg : Option (IncomingO C)) :
    ∀ m ∈ (callO x.state now msg).2.2.filterMap (mailO a), FromRunner n m := by
  intro m hm
  obtain ⟨s, hs, hmail⟩ := List.mem_filterMap.mp hm
  have hsend := (callO_keeps x.state now msg).2 s hs
  cases s <;> cases hmail
  case error => trivial
  case outgoing => trivial
  case output out => exact ⟨x.state.identity, by simp [identitiesO, hget], hsend⟩

theorem fromRunner_mailS {n : Node C} {a : Nat} {x : Actor (Signer C) (IncomingS C)}
    (hget : n.signers[a]? = some x) (msg : Option (IncomingS C)) :
    ∀ m ∈ (callS x.state msg).2.2.filterMap (mailS a), FromRunner n m := by
  intro m hm
  obtain ⟨s, hs, hmail⟩ := List.mem_filterMap.mp hm
  have hsend := (callS_keeps x.state msg).2 s hs
  cases s <;> cases hmail
  case outgoing => trivial
  case output out => exact ⟨x.state.identity, by simp [identitiesS, hget], hsend⟩

/-- What the coordinator has taken up and what it still has to. -/
structure Genuine (os : List (Obs C)) (n : Node C) : Prop where
  waiting : ∀ m ∈ n.mailbox, FromRunner n m
  handled : ∀ m, .handled m ∈ os → FromRunner n m

theorem Genuine.init (sk : C.SecretKey) (db : Tree C) : Genuine [] (init sk db) where
  waiting _ h := by cases h
  handled _ h := by cases h

@[simp] theorem perform_mailbox (n : Node C) (h : Coordinator.Call C String Unit) :
    (perform n h).1.mailbox = n.mailbox := by
  simp [perform]

theorem not_handled_perform (n : Node C) (h : Coordinator.Call C String Unit) (m : Mail C) :
    .handled m ∉ (perform n h).2 := by
  simp [perform]

theorem not_handled_of_failure {I β ε ο : Type} {x : Obs C} {m : Mail C} (hx : x ≠ .handled m)
    {sends : List (PlayerSend I β ε ο)} : .handled m ∉ sends.filterMap (failureOf x) := by
  intro hm
  obtain rfl := eq_of_mem_failures hm
  exact hx rfl

theorem not_handled_of_failureS {x : Obs C} {m : Mail C} (hx : x ≠ .handled m)
    {sends : List (SignerSend C)} : .handled m ∉ sends.filterMap (failureOfS x) := by
  intro hm
  obtain rfl := eq_of_mem_failuresS hm
  exact hx rfl

theorem Genuine.step {os o : List (Obs C)} {n t : Node C} {e : Event} (hq : Genuine os n)
    (h : Steps n e t o) : Genuine (os ++ o) t := by
  have hgrows := h.grows
  -- runners are only added, so what came from one of them still does
  have hnext : (∀ m ∈ t.mailbox, m ∈ n.mailbox ∨ FromRunner n m) →
      (∀ m, .handled m ∈ o → m ∈ n.mailbox) → Genuine (os ++ o) t := by
    intro hbox ho
    refine ⟨fun m hm => ?_, fun m hm => ?_⟩
    · exact ((hbox m hm).elim (hq.waiting m) id).grows hgrows
    · refine FromRunner.grows ?_ hgrows
      exact (List.mem_append.mp hm).elim (hq.handled m) fun hm => hq.waiting m (ho m hm)
  cases h with
  | skipped _ => exact hnext (fun m hm => .inl hm) (by simp)
  | lost _ => exact hnext (fun m hm => .inl hm) (by simp)
  | finished _ => exact hnext (fun m hm => .inl hm) (by simp)
  | attempted _ _ _ => exact hnext (fun m hm => .inl hm) (by simp)
  | queued _ =>
      refine hnext (fun m hm => ?_) (by simp)
      rcases List.mem_append.mp hm with hm | hm
      · exact .inl hm
      · obtain rfl := List.mem_singleton.mp hm
        exact .inr trivial
  | received _ _ =>
      refine hnext (fun m hm => .inl (by simpa [receive] using hm)) fun m hm => ?_
      exact absurd ((List.mem_cons.mp hm).resolve_left (by simp)) (not_handled_perform _ _ m)
  | tookMail _ hbox =>
      refine hnext (fun m hm => .inl ?_) fun m hm => ?_
      · rw [hbox]
        exact List.mem_cons_of_mem _ (by simpa [takeMail] using hm)
      · rcases List.mem_cons.mp hm with hm | hm
        · cases hm
          rw [hbox]
          exact List.mem_cons_self
        · exact absurd hm (not_handled_perform _ _ m)
  | fired _ => exact hnext (fun m hm => .inl hm) (by simp)
  | tookRetry _ _ =>
      refine hnext (fun m hm => .inl (by simpa [takeRetry] using hm)) fun m hm => ?_
      exact absurd hm (not_handled_perform _ _ m)
  | ranKG msg hget _ _ _ =>
      refine hnext (fun m hm => ?_) fun m hm => absurd hm (not_handled_of_failure (by simp))
      exact (List.mem_append.mp hm).imp_right (fromRunner_mailKG hget msg m)
  | ranO msg hget _ _ _ =>
      refine hnext (fun m hm => ?_) fun m hm => absurd hm (not_handled_of_failure (by simp))
      exact (List.mem_append.mp hm).imp_right (fromRunner_mailO hget msg m)
  | ranS msg hget _ _ _ _ =>
      refine hnext (fun m hm => ?_) fun m hm => absurd hm (not_handled_of_failureS (by simp))
      exact (List.mem_append.mp hm).imp_right (fromRunner_mailS hget msg m)

/-- **Outputs are genuine.** In every run, an output that waits or was handled
carries the input of the runner it came from. -/
theorem genuine_of_run {guard : Node C → Event → Prop} {sk : C.SecretKey} {db : Tree C}
    {os : List (Obs C)} {n : Node C} (hrun : Run step guard (init sk db) os n) : Genuine os n :=
  hrun.invariant _ (.init sk db) fun _ hq _ hs => hq.step (step_cases hs)

/-- Every keygen player was started for a request the coordinator took up. -/
theorem requestedKG_of_run {guard : Node C → Event → Prop} {sk : C.SecretKey} {db : Tree C}
    {os : List (Obs C)} {n : Node C} (hrun : Run step guard (init sk db) os n) :
    ∀ i ∈ n.identitiesKG, .handled (.request (.keygen i.input)) ∈ os := by
  refine hrun.invariant (fun os n => ∀ i ∈ n.identitiesKG,
    .handled (.request (.keygen i.input)) ∈ os) (fun i hi => by cases hi) ?_
  intro os n e t o _ ih _ hs i hi
  rw [(step_cases hs).grows.keygen] at hi
  rcases List.mem_append.mp hi with hi | hi
  · exact List.mem_append_left _ (ih i hi)
  · exact List.mem_append_right _ ((step_cases hs).requestedKG i hi)

end Node

end MpcServer

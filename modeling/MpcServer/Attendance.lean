import MpcServer.Actors.Failures
import MpcServer.Progress
import MpcServer.RoomParameters

/-!
# Somebody works on it

A request that was admitted is in a queue, or a runner is registered for its
room: as long as nothing fails on the way. What fails is not reported, but for
a hash that cannot be read, and such a request is never admitted. So one
failure leaves a request with nobody working on it.
-/

namespace MpcServer

open Rust Rust.Method Machine

variable {C : Crates}

/-- The keys of the parties, as the client spelled them. -/
def Request.participants : Request → List String
  | .keygen req => req.participantPublicKeys
  | .sign req => req.participantPublicKeys

namespace Parameters

/-- The request a session was begun for. -/
def request : Parameters → Request
  | .keygen req => .keygen req
  | .sign req => .sign req.inner

theorem request_requestId (p : Parameters) : p.request.requestId = p.requestId := by
  cases p <;> rfl

theorem request_participants (p : Parameters) : p.request.participants = p.participants := by
  cases p <;> rfl

end Parameters

namespace Node

/-! ## Runners of a room -/

/-- A runner is registered for the room. -/
def Manned (c : Coordinator C) (room : String) : Prop :=
  c.keygenRunners room ≠ none ∨ c.offlineStateRunners room ≠ none ∨ c.signers room ≠ none

/-- A runner that is up and has not failed is registered for the room. -/
inductive Attends (os : List (Obs C)) (n : Node C) (room : String) : Prop
  | keygen {a x} : n.coordinator.keygenRunners room = some a → n.playersKG[a]? = some x →
      x.alive = true → .failedKG a ∉ os → Attends os n room
  | offline {a x} : n.coordinator.offlineStateRunners room = some a → n.playersO[a]? = some x →
      x.alive = true → .failedO a ∉ os → Attends os n room
  | signer {a x} : n.coordinator.signers room = some a → n.signers[a]? = some x →
      x.alive = true → .failedS a ∉ os → (x.started = true → x.state.Accepts) → Attends os n room

/-- What a step does to the registrations: a session begins, a signer takes
over, or the output of a player has one taken back. -/
inductive Reassigns (n t : Node C) (o : List (Obs C)) : Prop
  | nobody : o.filterMap startedKG = [] → o.filterMap startedO = [] →
      t.coordinator.keygenRunners = n.coordinator.keygenRunners →
      t.coordinator.offlineStateRunners = n.coordinator.offlineStateRunners →
      t.coordinator.signers = n.coordinator.signers → Reassigns n t o
  | keygen {i} : o.filterMap startedKG = [i] → o.filterMap startedO = [] →
      t.coordinator.keygenRunners =
        Function.update n.coordinator.keygenRunners i.room (some n.playersKG.length) →
      t.coordinator.offlineStateRunners = n.coordinator.offlineStateRunners →
      t.coordinator.signers = n.coordinator.signers → Reassigns n t o
  | offline {i} : o.filterMap startedKG = [] → o.filterMap startedO = [i] →
      t.coordinator.keygenRunners = n.coordinator.keygenRunners →
      t.coordinator.offlineStateRunners =
        Function.update n.coordinator.offlineStateRunners i.room (some n.playersO.length) →
      t.coordinator.signers = n.coordinator.signers → Reassigns n t o
  | signer {i room} : o.filterMap startedKG = [] → o.filterMap startedO = [] →
      o.filterMap startedS = [i] →
      t.coordinator.keygenRunners = n.coordinator.keygenRunners →
      t.coordinator.offlineStateRunners =
        Function.update n.coordinator.offlineStateRunners room none →
      t.coordinator.signers =
        Function.update n.coordinator.signers room (some n.signers.length) → Reassigns n t o
  | finished {a out group} : .outputKG a out ∈ n.mailbox →
      PublicKeyGroup.groupIdOf out.input.participantPublicKeys = .ok group →
      o.filterMap startedKG = [] → o.filterMap startedO = [] →
      t.coordinator.keygenRunners = n.coordinator.keygenRunners →
      t.coordinator.offlineStateRunners = Function.update n.coordinator.offlineStateRunners
        (makeRoomId out.input.requestId group) none →
      t.coordinator.signers = n.coordinator.signers → Reassigns n t o
  | spoiled {a out} : .outputO a out ∈ n.mailbox → C.bigIntFromHex out.input.inner.hash = none →
      o.filterMap startedKG = [] → o.filterMap startedO = [] →
      t.coordinator.keygenRunners = n.coordinator.keygenRunners →
      t.coordinator.offlineStateRunners =
        Function.update n.coordinator.offlineStateRunners out.input.room none →
      t.coordinator.signers = n.coordinator.signers → Reassigns n t o

theorem Steps.reassigns {n t : Node C} {e : Event} {o : List (Obs C)} (hs : Steps n e t o) :
    Reassigns n t o := by
  have hstill (hobs : o.filterMap startedKG = [] ∧ o.filterMap startedO = [])
      (hmaps : t.coordinator.keygenRunners = n.coordinator.keygenRunners ∧
        t.coordinator.offlineStateRunners = n.coordinator.offlineStateRunners ∧
        t.coordinator.signers = n.coordinator.signers) : Reassigns n t o :=
    .nobody hobs.1 hobs.2 hmaps.1 hmaps.2.1 hmaps.2.2
  cases hs.turns with
  | idle hc ho =>
      have hnobody := fun x hx => startsNobody_of_idle (ho x hx)
      exact hstill ⟨startedKG_nil hnobody, startedO_nil hnobody⟩ (by simp [hc])
  | handled _ hbox hh hc _ _ ho =>
      cases hh with
      | keygenRequest hk =>
          cases hk with
          | refused _ => exact hstill (by rw [ho]; exact ⟨rfl, rfl⟩) (by simp [hc])
          | began _ _ =>
              exact .keygen (by rw [ho]; rfl) (by rw [ho]; rfl) (by rw [hc]; rfl) (by rw [hc])
                (by rw [hc])
      | signRequest hk =>
          cases hk with
          | began _ _ _ _ =>
              exact .offline (by rw [ho]; rfl) (by rw [ho]; rfl) (by rw [hc]) (by rw [hc]; rfl)
                (by rw [hc])
          | _ => exact hstill (by rw [ho]; exact ⟨rfl, rfl⟩) (by simp [hc])
      | outgoing hes =>
          have hnobody : ∀ x ∈ o, StartsNobody x := by
            rw [ho]
            exact List.forall_mem_cons.mpr ⟨⟨rfl, rfl, rfl⟩, startsNobody_of_sends hes⟩
          exact hstill ⟨startedKG_nil hnobody, startedO_nil hnobody⟩ (by simp [hc])
      | outputKG hk =>
          cases hk with
          | panicked _ => exact hstill (by rw [ho]; exact ⟨rfl, rfl⟩) (by simp [hc])
          | done hnew =>
              obtain ⟨gid, hgid, hgroup⟩ := PublicKeyGroup.new_eq_ok.mp hnew
              refine .finished (hbox ▸ List.mem_cons_self) hgid (by rw [ho]; rfl)
                (by rw [ho]; rfl) ?_ ?_ ?_ <;> rw [hc]
              rw [hgroup]
      | outputO hk =>
          cases hk with
          | signing _ =>
              exact .signer (by rw [ho]; rfl) (by rw [ho]; rfl) (by rw [ho]; rfl) (by rw [hc])
                (by rw [hc]) (by rw [hc]; rfl)
          | badHash hhash =>
              exact .spoiled (hbox ▸ List.mem_cons_self) hhash (by rw [ho]; rfl) (by rw [ho]; rfl)
                (by rw [hc]) (by rw [hc]) (by rw [hc])
      | outputS => exact hstill (by rw [ho]; exact ⟨rfl, rfl⟩) (by simp [hc])

/-- Every registration is of a runner there is. -/
structure Valid (n : Node C) : Prop where
  keygen : Registry.Within n.coordinator.keygenRunners n.playersKG.length
  offline : Registry.Within n.coordinator.offlineStateRunners n.playersO.length
  signers : Registry.Within n.coordinator.signers n.signers.length

/-- What is known of the registrations and the sessions as long as nothing fails. -/
structure Staffed (os : List (Obs C)) (n : Node C) : Prop where
  healthy : n.Healthy
  calm : ∀ y ∈ os, ¬ IsFailure y
  genuine : Genuine os n
  rooms : ∀ x ∈ n.registered, RoomOf x
  valid : Valid n
  keygen : ∀ i ∈ n.identitiesKG, n.coordinator.keygenRunners i.room ≠ none
  manned : ∀ x ∈ n.registered, Manned n.coordinator x.1

theorem Staffed.init (sk : C.SecretKey) (db : Tree C) : Staffed [] (init sk db) where
  healthy := .init sk db
  calm _ h := by cases h
  genuine := .init sk db
  rooms _ h := by cases h
  valid := ⟨.empty _, .empty _, .empty _⟩
  keygen _ h := by cases h
  manned _ h := by cases h

section
variable {os o : List (Obs C)} {n t : Node C} {e : Event}

/-- A step starts the runners that its output tells of. -/
theorem Steps.lengths (hs : Steps n e t o) :
    t.playersKG.length = n.playersKG.length + (o.filterMap startedKG).length ∧
      t.playersO.length = n.playersO.length + (o.filterMap startedO).length ∧
      t.signers.length = n.signers.length + (o.filterMap startedS).length := by
  obtain ⟨hKG, hO, hS⟩ := hs.grows
  refine ⟨?_, ?_, ?_⟩
  · simpa [identitiesKG] using congrArg List.length hKG
  · simpa [identitiesO] using congrArg List.length hO
  · simpa [identitiesS] using congrArg List.length hS

theorem Valid.step (h : Valid n) (hs : Steps n e t o) : Valid t := by
  obtain ⟨hKG, hO, hS⟩ := hs.lengths
  have hkeygen := h.keygen.mono (m := t.playersKG.length) (by omega)
  have hoffline := h.offline.mono (m := t.playersO.length) (by omega)
  have hsigners := h.signers.mono (m := t.signers.length) (by omega)
  cases hs.reassigns with
  | nobody _ _ hmKG hmO hmS => exact ⟨hmKG ▸ hkeygen, hmO ▸ hoffline, hmS ▸ hsigners⟩
  | keygen hi _ hmKG hmO hmS =>
      rw [hi] at hKG
      exact ⟨hmKG ▸ h.keygen.register (by simp [hKG]), hmO ▸ hoffline, hmS ▸ hsigners⟩
  | offline _ hi hmKG hmO hmS =>
      rw [hi] at hO
      exact ⟨hmKG ▸ hkeygen, hmO ▸ h.offline.register (by simp [hO]), hmS ▸ hsigners⟩
  | signer _ _ hi hmKG hmO hmS =>
      rw [hi] at hS
      exact ⟨hmKG ▸ hkeygen, hmO ▸ hoffline.release, hmS ▸ h.signers.register (by simp [hS])⟩
  | finished _ _ _ _ hmKG hmO hmS => exact ⟨hmKG ▸ hkeygen, hmO ▸ hoffline.release, hmS ▸ hsigners⟩
  | spoiled _ _ _ _ hmKG hmO hmS => exact ⟨hmKG ▸ hkeygen, hmO ▸ hoffline.release, hmS ▸ hsigners⟩

theorem update_ne_none {map : String → Option Addr} {r : String} (h : map r ≠ none) (k : String)
    (a : Addr) : Function.update map k (some a) r ≠ none := by
  by_cases hr : r = k
  · simp [hr]
  · rwa [Function.update_of_ne hr]

/-- What an offline player's request is to sign can be read. -/
def ReadsHashes (n : Node C) : Prop :=
  ∀ i ∈ n.identitiesO, C.bigIntFromHex i.input.inner.hash ≠ none

/-- The output of a keygen player is for a room its player is registered for. -/
theorem Staffed.keygen_of_output (h : Staffed os n) {a : Addr}
    {out : ProtocolOutput KeygenRequest C.LocalKey} (hout : .outputKG a out ∈ n.mailbox)
    {gid : String} (hgid : PublicKeyGroup.groupIdOf out.input.participantPublicKeys = .ok gid) :
    n.coordinator.keygenRunners (makeRoomId out.input.requestId gid) ≠ none := by
  obtain ⟨i, hi, hin⟩ := h.genuine.waiting _ hout
  have hmem : i ∈ n.identitiesKG := List.mem_of_getElem? hi
  have hsession : (i.room, .keygen i.input) ∈ n.registered :=
    List.mem_append_left _ (List.mem_map_of_mem hmem)
  obtain ⟨gid', hgid', hroom⟩ := h.rooms _ hsession
  simp only [Parameters.participants, Parameters.requestId, ← hin] at hgid' hroom
  cases hgid.symm.trans hgid'
  exact hroom ▸ h.keygen i hmem

/-- A room that has a runner keeps one. -/
theorem Staffed.manned_step (h : Staffed os n) (hhash : ReadsHashes n) (hs : Steps n e t o)
    {room : String} (hm : Manned n.coordinator room) : Manned t.coordinator room := by
  unfold Manned at hm ⊢
  cases hs.reassigns with
  | nobody _ _ hmKG hmO hmS =>
      rw [hmKG, hmO, hmS]
      exact hm
  | keygen _ _ hmKG hmO hmS =>
      rw [hmKG, hmO, hmS]
      exact hm.imp_left fun hne => update_ne_none hne _ _
  | offline _ _ hmKG hmO hmS =>
      rw [hmKG, hmO, hmS]
      exact hm.imp_right fun hor => hor.imp_left fun hne => update_ne_none hne _ _
  | @signer _ freed _ _ _ hmKG hmO hmS =>
      -- the signer takes the place of the player
      rw [hmKG, hmO, hmS]
      by_cases hroom : room = freed
      · exact .inr (.inr (by simp [hroom]))
      · rwa [Function.update_of_ne hroom, Function.update_of_ne hroom]
  | @finished a out gid hout hgid _ _ hmKG hmO hmS =>
      rw [hmKG, hmO, hmS]
      by_cases hroom : room = makeRoomId out.input.requestId gid
      · exact .inl (hroom ▸ h.keygen_of_output hout hgid)
      · rwa [Function.update_of_ne hroom]
  | spoiled hout hnone _ _ _ _ _ =>
      obtain ⟨i, hi, hin⟩ := h.genuine.waiting _ hout
      exact absurd (hin ▸ hnone) (hhash i (List.mem_of_getElem? hi))

theorem keygen_step (h : ∀ i ∈ n.identitiesKG, n.coordinator.keygenRunners i.room ≠ none)
    (hs : Steps n e t o) : ∀ i ∈ t.identitiesKG, t.coordinator.keygenRunners i.room ≠ none := by
  have hgrows := hs.grows.keygen
  have hstill (hmKG : t.coordinator.keygenRunners = n.coordinator.keygenRunners)
      (ho : o.filterMap startedKG = []) :
      ∀ i ∈ t.identitiesKG, t.coordinator.keygenRunners i.room ≠ none := by
    rw [hgrows, ho, List.append_nil, hmKG]
    exact h
  cases hs.reassigns with
  | nobody ho _ hmKG _ _ => exact hstill hmKG ho
  | @keygen i hi _ hmKG _ _ =>
      rw [hgrows, hi, hmKG]
      refine List.forall_mem_append.mpr ⟨fun j hj => update_ne_none (h j hj) _ _, ?_⟩
      exact List.forall_mem_singleton.mpr (by simp)
  | offline ho _ hmKG _ _ => exact hstill hmKG ho
  | signer ho _ _ hmKG _ _ => exact hstill hmKG ho
  | finished _ _ ho _ hmKG _ _ => exact hstill hmKG ho
  | spoiled _ _ ho _ hmKG _ _ => exact hstill hmKG ho

/-- The room of a session that begins gets a runner. -/
theorem manned_of_began (hs : Steps n e t o) : ∀ i ∈ o.filterMap startedO,
    Manned t.coordinator i.room := by
  cases hs.reassigns with
  | nobody _ ho _ _ _ => simp [ho]
  | keygen _ ho _ _ _ => simp [ho]
  | offline _ hi _ hmO _ =>
      rw [hi]
      exact List.forall_mem_singleton.mpr (.inr (.inl (by simp [hmO])))
  | signer _ ho _ _ _ _ => simp [ho]
  | finished _ _ _ ho _ _ _ => simp [ho]
  | spoiled _ _ _ ho _ _ _ => simp [ho]

theorem Staffed.step (h : Staffed os n) (hhash : ReadsHashes n) (hg : n.Unfailing e)
    (hs : Steps n e t o) : Staffed (os ++ o) t where
  healthy := by
    refine h.healthy.step hg hs fun a out hout => ?_
    obtain ⟨i, hi, hin⟩ := h.genuine.waiting _ hout
    have hsession : (i.room, .keygen i.input) ∈ n.registered :=
      List.mem_append_left _ (List.mem_map_of_mem (List.mem_of_getElem? hi))
    obtain ⟨gid, hgid, -⟩ := h.rooms _ hsession
    simp only [Parameters.participants, ← hin] at hgid
    rw [hgid]
    rfl
  calm := List.forall_mem_append.mpr ⟨h.calm, hs.no_failure hg⟩
  genuine := h.genuine.step hs
  rooms := roomOf_step hs h.rooms
  valid := h.valid.step hs
  keygen := keygen_step h.keygen hs
  manned := by
    have hkeygen := keygen_step h.keygen hs
    refine List.forall_mem_append.mpr ⟨fun x hx => ?_, fun x hx => ?_⟩
    · obtain ⟨i, hi, rfl⟩ := List.mem_map.mp hx
      exact .inl (hkeygen i hi)
    · obtain ⟨i, hi, rfl⟩ := List.mem_map.mp hx
      rw [hs.grows.offline] at hi
      rcases List.mem_append.mp hi with hi | hi
      · refine h.manned_step hhash hs (h.manned (i.room, .sign i.input) ?_)
        exact List.mem_append_right _ (List.mem_map_of_mem hi)
      · exact manned_of_began hs i hi

/-- A room that has a runner is attended to. -/
theorem Staffed.attends (h : Staffed os n) {room : String} (hm : Manned n.coordinator room) :
    Attends os n room := by
  rcases hm with hne | hne | hne
  · obtain ⟨a, ha⟩ := Option.ne_none_iff_exists'.mp hne
    have hlt := h.valid.keygen room a ha
    exact .keygen ha (List.getElem?_eq_getElem hlt) (h.healthy.playersKG _ (List.getElem_mem hlt))
      fun hfailed => h.calm _ hfailed trivial
  · obtain ⟨a, ha⟩ := Option.ne_none_iff_exists'.mp hne
    have hlt := h.valid.offline room a ha
    exact .offline ha (List.getElem?_eq_getElem hlt) (h.healthy.playersO _ (List.getElem_mem hlt))
      fun hfailed => h.calm _ hfailed trivial
  · obtain ⟨a, ha⟩ := Option.ne_none_iff_exists'.mp hne
    have hlt := h.valid.signers room a ha
    obtain ⟨halive, haccepts⟩ := h.healthy.signers _ (List.getElem_mem hlt)
    exact .signer ha (List.getElem?_eq_getElem hlt) halive
      (fun hfailed => h.calm _ hfailed trivial) haccepts

/-! ## Requests -/

theorem mem_mailbox_of_handled (hs : Steps n e t o) {m : Mail C} (hm : .handled m ∈ o) :
    m ∈ n.mailbox := by
  obtain ⟨kept, added, hbox, -, -⟩ := hs.mailbox
  rw [hbox]
  exact List.mem_append_left _ (List.mem_filterMap.mpr ⟨_, hm, rfl⟩)

theorem mem_requests_iff {req : Request} : req ∈ n.requests ↔ .request req ∈ n.mailbox := by
  constructor
  · intro h
    obtain ⟨m, hm, hreq⟩ := List.mem_filterMap.mp h
    cases m <;> cases hreq
    exact hm
  · intro h
    exact List.mem_filterMap.mpr ⟨_, h, rfl⟩

/-- A session is begun for a request that waited. -/
theorem Steps.request_of_registered (hs : Steps n e t o) : ∀ x ∈ t.registered,
    x ∈ n.registered ∨ x.2.request ∈ n.requests := by
  unfold registered
  rw [hs.grows.keygen, hs.grows.offline]
  cases hs.begins with
  | nothing hKG hO =>
      rw [hKG, hO, List.append_nil, List.append_nil]
      exact fun x hx => .inl hx
  | keygen hmem _ hKG hO =>
      rw [hKG, hO, List.append_nil, List.map_append]
      intro x hx
      simp only [List.mem_append, List.map_cons, List.map_nil, List.mem_singleton] at hx ⊢
      rcases hx with (hx | rfl) | hx
      · exact .inl (.inl hx)
      · exact .inr (mem_requests_iff.mpr (mem_mailbox_of_handled hs hmem))
      · exact .inl (.inr hx)
  | sign hmem _ _ _ hKG hO =>
      rw [hKG, hO, List.append_nil, List.map_append]
      intro x hx
      simp only [List.mem_append, List.map_cons, List.map_nil, List.mem_singleton] at hx ⊢
      rcases hx with hx | hx | rfl
      · exact .inl (.inl hx)
      · exact .inl (.inr hx)
      · exact .inr (mem_requests_iff.mpr (mem_mailbox_of_handled hs hmem))

theorem Steps.mem_requests (hs : Steps n e t o) : ∀ req ∈ t.requests,
    req ∈ n.requests ∨ e = .request req := by
  obtain ⟨kept, added, hbox, hbox', hadds⟩ := hs.mailbox
  intro req hreq
  simp only [requests, hbox', List.filterMap_append, List.mem_append] at hreq
  simp only [requests, hbox, List.filterMap_append, List.mem_append]
  rcases hreq with hreq | hreq
  · exact .inl (.inr hreq)
  · rcases hadds with hnone | ⟨req', he, -, rfl⟩
    · obtain ⟨m, hm, hof⟩ := List.mem_filterMap.mp hreq
      rw [hnone m hm] at hof
      cases hof
    · obtain rfl := List.mem_singleton.mp hreq
      exact .inr he

/-- The request waits, or a session was begun for it. -/
def Holds (n : Node C) (req : Request) : Prop :=
  req ∈ n.requests ∨ ∃ x ∈ n.registered, x.2.request = req

theorem registered_mono (hs : Steps n e t o) : ∀ x ∈ n.registered, x ∈ t.registered := by
  unfold registered
  rw [hs.grows.keygen, hs.grows.offline, List.map_append, List.map_append]
  intro x hx
  simp only [List.mem_append] at hx ⊢
  exact hx.elim (fun h => .inl (.inl h)) fun h => .inr (.inl h)

/-- A request that is taken up begins its session. -/
theorem Steps.begun (hs : Steps n e t o) (hg : n.Unfailing e) {req : Request}
    (hmem : .handled (.request req) ∈ o) : ∃ x ∈ t.registered, x.2.request = req := by
  cases hs.turns with
  | idle _ ho => exact absurd rfl (ho _ hmem)
  | @handled amb m rest _ _ es he hbox hh _ _ _ ho =>
      subst he
      obtain rfl : Mail.request req = m := by
        rw [ho] at hmem
        rcases List.mem_cons.mp hmem with hmem | hmem
        · exact (Obs.handled.inj hmem)
        · simp at hmem
      have hbegins : Answerable n.coordinator (n.ctx amb) (.request req) :=
        hg _ (by rw [hbox]; rfl)
      have hgrows := hs.grows
      cases hh with
      | @keygenRequest asked _ _ _ hk =>
          have hok := hk.begins_iff.mp hbegins
          cases hk with
          | refused _ => cases hok
          | began _ _ =>
              have hstarted : ∃ i ∈ t.identitiesKG, i.input = asked := by
                rw [hgrows.keygen, ho]
                exact ⟨_, List.mem_append_right _ List.mem_cons_self, rfl⟩
              obtain ⟨i, hi, rfl⟩ := hstarted
              exact ⟨_, List.mem_append_left _ (List.mem_map_of_mem hi), rfl⟩
      | @signRequest asked _ _ _ hk =>
          have hok := hk.begins_iff.mp hbegins
          cases hk with
          | began _ _ _ _ =>
              have hstarted : ∃ i ∈ t.identitiesO, i.input.inner = asked := by
                rw [hgrows.offline, ho]
                exact ⟨_, List.mem_append_right _ List.mem_cons_self, rfl⟩
              obtain ⟨i, hi, rfl⟩ := hstarted
              exact ⟨_, List.mem_append_right _ (List.mem_map_of_mem hi), rfl⟩
          | _ => cases hok

theorem Holds.step {req : Request} (h : n.Holds req) (hs : Steps n e t o) (hg : n.Unfailing e) :
    t.Holds req := by
  rcases h with h | ⟨x, hx, hreq⟩
  · obtain ⟨kept, added, hbox, hbox', -⟩ := hs.mailbox
    simp only [requests, hbox, List.filterMap_append, List.mem_append] at h
    rcases h with h | h
    · obtain ⟨m, hm, hof⟩ := List.mem_filterMap.mp h
      cases m <;> cases hof
      obtain ⟨y, hy, htaken⟩ := List.mem_filterMap.mp hm
      cases y <;> cases htaken
      exact .inr (hs.begun hg hy)
    · refine .inl ?_
      simp only [requests, hbox', List.filterMap_append, List.mem_append]
      exact .inl h
  · exact .inr ⟨x, registered_mono hs x hx, hreq⟩

end

end Node

namespace Server

/-- The requests of the calls on their way and those that wait in the queue. -/
def asked (s : Server C) : List Request := s.calls.map (·.request) ++ s.rx

/-- What `sign` checks before it admits a request. -/
def Readable (C : Crates) : Request → Prop
  | .keygen _ => True
  | .sign req => C.bigIntFromHex req.hash ≠ none

section
variable {s t : Server C} {e : Event} {o : List Obs}

theorem readable_of_admitted {getOk : Bool} {req : Request} (h : s.refusal getOk req = none) :
    Readable C req := by
  cases req with
  | keygen req => trivial
  | sign req =>
      intro hnone
      simp only [refusal, hnone] at h
      split at h <;> cases h

/-- Nothing is lost on the way to the queue once the broker can be joined. -/
theorem Steps.mem_asked (hs : Steps s e t o) (hjoin : e ≠ .join false)
    (hjoined : s.bootstrap ≠ .gone) {req : Request} :
    req ∈ t.asked ↔ req ∈ s.asked ∨ .called req none ∈ o := by
  have hsame (h : t.asked = s.asked) (ho : .called req none ∉ o) :
      req ∈ t.asked ↔ req ∈ s.asked ∨ .called req none ∈ o := by
    rw [h]
    exact ⟨.inl, fun hor => hor.resolve_right ho⟩
  cases hs with
  | refused _ => exact hsame rfl (by simp)
  | admitted _ =>
      simp only [asked, List.map_append, List.mem_append, List.map_cons, List.map_nil,
        List.mem_singleton, Obs.called.injEq, and_true]
      exact or_right_comm
  | @announced i req' hget =>
      refine hsame ?_ (by simp)
      have hcalls : (s.calls.set i ⟨req', true⟩).map (·.request) = s.calls.map (·.request) :=
        Node.map_set_of_eq hget rfl
      simp only [asked, hcalls]
  | queued hget _ =>
      have hmem := ((calls_perm hget).map (·.request)).mem_iff (a := req)
      simp only [asked, List.mem_append, hmem, List.map_cons, List.mem_cons, reduceCtorEq,
        List.not_mem_nil, or_false]
      tauto
  | lost _ hgone => exact absurd hgone hjoined
  | checked => exact hsame rfl (by simp)
  | saved _ => exact hsame rfl (by simp)
  | joined _ => exact hsame rfl (by simp)
  | left _ => exact absurd rfl hjoin

theorem Steps.not_gone (hs : Steps s e t o) (hjoin : e ≠ .join false)
    (hjoined : s.bootstrap ≠ .gone) : t.bootstrap ≠ .gone := by
  cases hs with
  | joined _ => exact fun h => by cases h
  | left _ => exact absurd rfl hjoin
  | _ => exact hjoined

end

end Server

namespace System

/-! ## The whole server -/

/-- The requests that `keygen` and `sign` admitted. -/
def admittedRequests (os : List (Obs C)) : List Request :=
  os.filterMap fun
    | .server (.called req none) => some req
    | _ => none

/-- The last status sent for the id is a final one. -/
def Answered (os : List (Obs C)) (x : String) : Prop :=
  ∃ last ∈ (statusesOf x (sent os)).getLast?, last.isFinal = true

/-- A runner that is up and has not failed is registered for the request's room. -/
def Attended (os : List (Obs C)) (s : System C) (req : Request) : Prop :=
  ∃ gid, PublicKeyGroup.groupIdOf req.participants = .ok gid ∧
    s.node.Attends (os.filterMap nodeObs) (makeRoomId req.requestId gid)

/-- No call is on its way, and nothing waits in a queue or a mailbox. -/
structure Drained (s : System C) : Prop where
  calls : s.server.calls = []
  rx : s.server.rx = []
  rxRes : s.server.rxRes = []
  mailbox : s.node.mailbox = []
  notified : s.node.notified = []
  playersKG : ∀ x ∈ s.node.playersKG, x.mailbox = []
  playersO : ∀ x ∈ s.node.playersO, x.mailbox = []
  signers : ∀ x ∈ s.node.signers, x.mailbox = []

/-- Nothing fails in the step at the event: the broker can be joined and is not lost,
and neither a request nor a runner fails. -/
def Unfailing (s : System C) : Event → Prop
  | .server (.join ok) => ok = true
  | .node e => s.node.Unfailing e
  | _ => True

instance (s : System C) (e : Event) : Decidable (s.Unfailing e) := by
  unfold Unfailing
  split <;> infer_instance

/-- The request is on its way to a session, or has one. -/
def Holds (s : System C) (req : Request) : Prop := req ∈ s.server.asked ∨ s.node.Holds req

/-- The whole server as long as nothing fails. -/
structure Tended (os : List (Obs C)) (s : System C) : Prop where
  staffed : s.node.Staffed (os.filterMap nodeObs)
  joined : s.server.bootstrap ≠ .gone
  readable : ∀ req, s.Holds req → Server.Readable C req
  held : ∀ req ∈ admittedRequests os, s.Holds req

theorem Tended.init (sk : C.SecretKey) (shares results : Tree C) :
    Tended [] (init sk shares results) where
  staffed := .init sk shares
  joined h := by cases h
  readable _ h := by
    rcases h with h | h | ⟨x, hx, -⟩
    · cases h
    · cases h
    · cases hx
  held _ h := by cases h

section
variable {os o : List (Obs C)} {s t : System C} {e : Event}

theorem admittedRequests_append (os o : List (Obs C)) :
    admittedRequests (os ++ o) = admittedRequests os ++ admittedRequests o :=
  List.filterMap_append

theorem admittedRequests_node (o : List (MpcServer.Obs C)) :
    admittedRequests (o.map Obs.node) = [] := by
  refine List.filterMap_eq_nil_iff.mpr fun y hy => ?_
  obtain ⟨z, -, rfl⟩ := List.mem_map.mp hy
  rfl

theorem mem_admittedRequests_server {o : List Server.Obs} {req : Request}
    (h : req ∈ admittedRequests (o.map (Obs.server (C := C)))) : .called req none ∈ o := by
  obtain ⟨y, hy, hreq⟩ := List.mem_filterMap.mp h
  obtain ⟨z, hz, rfl⟩ := List.mem_map.mp hy
  cases z with
  | called req' refusal => cases refusal <;> cases hreq; exact hz
  | _ => cases hreq

theorem Tended.readsHashes (h : Tended os s) : s.node.ReadsHashes := by
  intro i hi
  have hsession : (i.room, .sign i.input) ∈ s.node.registered :=
    List.mem_append_right _ (List.mem_map_of_mem hi)
  exact h.readable (.sign i.input.inner) (.inr (.inr ⟨_, hsession, rfl⟩))

/-- What the node holds after a step it held before, or it is the request that came in. -/
theorem holds_before {n t : Node C} {e : MpcServer.Event} {o : List (MpcServer.Obs C)}
    (hs : n.Steps e t o) {req : Request} (h : t.Holds req) : n.Holds req ∨ e = .request req := by
  rcases h with h | ⟨x, hx, rfl⟩
  · exact (hs.mem_requests req h).imp_left .inl
  · exact .inl ((hs.request_of_registered x hx).elim (fun hx => .inr ⟨x, hx, rfl⟩) .inl)

theorem Tended.server (h : Tended os s) {e : Server.Event} {u : Server C} {o : List Server.Obs}
    (hg : s.Unfailing (.server e)) (hs : Server.Steps s.server e u o) :
    Tended (os ++ o.map Obs.server) { s with server := u } := by
  have hjoin : e ≠ .join false := by
    rintro rfl
    cases hg
  refine ⟨?_, hs.not_gone hjoin h.joined, fun req hreq => ?_, ?_⟩
  · rw [List.filterMap_append, filterMap_nodeObs_server, List.append_nil]
    exact h.staffed
  · rcases hreq with hreq | hreq
    · rcases (hs.mem_asked hjoin h.joined).mp hreq with hold | hnew
      · exact h.readable req (.inl hold)
      · cases hs with
        | admitted hnone =>
            obtain rfl : req = _ := by simpa using hnew
            exact Server.readable_of_admitted hnone
        | _ => simp at hnew
    · exact h.readable req (.inr hreq)
  · rw [admittedRequests_append]
    refine List.forall_mem_append.mpr ⟨fun req hreq => ?_, fun req hreq => ?_⟩
    · exact (h.held req hreq).imp_left fun hold => (hs.mem_asked hjoin h.joined).mpr (.inl hold)
    · exact .inl ((hs.mem_asked hjoin h.joined).mpr (.inr (mem_admittedRequests_server hreq)))

theorem Tended.step (h : Tended os s) (hg : s.Unfailing e) (hs : Steps s e t o) :
    Tended (os ++ o) t := by
  have hnode (o : List (MpcServer.Obs C)) :
      (os ++ o.map Obs.node).filterMap nodeObs = os.filterMap nodeObs ++ o := by
    rw [List.filterMap_append, filterMap_nodeObs_node]
  have hadmitted (o : List (MpcServer.Obs C)) :
      admittedRequests (os ++ o.map Obs.node) = admittedRequests os := by
    rw [admittedRequests_append, admittedRequests_node, List.append_nil]
  cases hs with
  | server hs => exact h.server hg hs
  | @forward req rest n o _ hrx hn =>
      have hg' : s.node.Unfailing (.request req) := trivial
      have hmail : req ∈ n.requests := by
        obtain ⟨-, ⟨hdown, -⟩ | ⟨-, rfl⟩⟩ := hn.request
        · exact absurd h.staffed.healthy.alive (by simp [hdown])
        · exact Node.mem_requests_iff.mpr (List.mem_append_right _ List.mem_cons_self)
      refine ⟨hnode o ▸ h.staffed.step h.readsHashes hg' hn, h.joined, fun r hr => ?_, ?_⟩
      · refine h.readable r ?_
        rcases hr with hr | hr
        · exact .inl ((List.mem_append.mp hr).elim (List.mem_append_left _) fun hr =>
            List.mem_append_right _ (hrx ▸ List.mem_cons_of_mem _ hr))
        · rcases holds_before hn hr with hr | hr
          · exact .inr hr
          · cases hr
            exact .inl (List.mem_append_right _ (hrx ▸ List.mem_cons_self))
      · rw [hadmitted]
        intro r hr
        rcases h.held r hr with hold | hold
        · rcases List.mem_append.mp hold with hold | hold
          · exact .inl (List.mem_append_left _ hold)
          · rw [hrx] at hold
            rcases List.mem_cons.mp hold with rfl | hold
            · exact .inr (.inl hmail)
            · exact .inl (List.mem_append_right _ hold)
        · exact .inr (hold.step hn hg')
  | node _ hreq hn =>
      refine ⟨hnode _ ▸ h.staffed.step h.readsHashes hg hn, h.joined, fun r hr => ?_, ?_⟩
      · refine h.readable r (hr.imp_right fun hr => (holds_before hn hr).resolve_right ?_)
        rintro rfl
        cases hreq
      · rw [hadmitted]
        exact fun r hr => (h.held r hr).imp_right fun hold => hold.step hn hg

/-- **Somebody works on every request** in a run in which nothing fails: when
every queue and mailbox is drained, a request that was admitted has a final status, or a live
runner is registered for its room and has not failed. -/
theorem attended_of_run {sk : C.SecretKey} {shares results : Tree C}
    (hrun : Run step Unfailing (init sk shares results) os s) (hdrained : Drained s) :
    ∀ req ∈ admittedRequests os, Answered os req.requestId ∨ Attended os s req := by
  have h : Tended os s := hrun.invariant _ (.init sk shares results) fun _ h hg hs =>
    h.step hg (step_cases hs)
  intro req hreq
  rcases h.held req hreq with hasked | hwaits | ⟨x, hx, rfl⟩
  · simp [Server.asked, hdrained.calls, hdrained.rx] at hasked
  · simp [Node.requests, hdrained.mailbox] at hwaits
  · obtain ⟨gid, hgid, hroom⟩ := h.staffed.rooms x hx
    refine .inr ⟨gid, by rw [x.2.request_participants, hgid], ?_⟩
    rw [x.2.request_requestId, ← hroom]
    exact h.staffed.attends (h.staffed.manned x hx)

end

end System

namespace Sample

/-- A keygen request from its call to the coordinator's handler. -/
def takenUp (req : KeygenRequest) : List System.Event :=
  .server (.call (.keygen req) true) :: completeCall ++
    [.server (.handleResponse true), .server (.join true), .forward, .node (.mail allWell),
      .server (.handleResponse true)]

/-- Nothing is left to do anywhere. -/
def drained {C : Crates} (s : System C) : Bool :=
  s.server.calls.isEmpty && s.server.rx.isEmpty && s.server.rxRes.isEmpty &&
    s.node.mailbox.isEmpty && s.node.notified.isEmpty &&
    s.node.playersKG.all (·.mailbox.isEmpty) && s.node.playersO.all (·.mailbox.isEmpty) &&
    s.node.signers.all (·.mailbox.isEmpty)

theorem drained_of_test {C : Crates} {s : System C} (h : drained s = true) : s.Drained := by
  simp only [drained, Bool.and_eq_true, List.all_eq_true, List.isEmpty_iff] at h
  obtain ⟨⟨⟨⟨⟨⟨⟨hcalls, hrx⟩, hrxRes⟩, hmailbox⟩, hnotified⟩, hKG⟩, hO⟩, hS⟩ := h
  exact ⟨hcalls, hrx, hrxRes, hmailbox, hnotified, hKG, hO, hS⟩

/-- A key of two parties, and its player is registered. -/
theorem attended_of_keygen :
    ∃ os s, Run System.step System.Unfailing (bobsSystem keygen nothing nothing) os s ∧
      s.Drained ∧ System.admittedRequests os = [.keygen (keygenOf "k1" [.alice, .bob] 1)] ∧
      ∀ req ∈ System.admittedRequests os,
        System.Answered os req.requestId ∨ System.Attended os s req := by
  obtain ⟨os, s, hrun, hend⟩ := Run.ofGuardedTest System.step System.Unfailing
    (bobsSystem keygen nothing nothing) (takenUp (keygenOf "k1" [.alice, .bob] 1))
    (fun r => drained r.1 && decide
      (System.admittedRequests r.2 = [.keygen (keygenOf "k1" [.alice, .bob] 1)]))
    (by decide +kernel)
  obtain ⟨hdrained, hadmitted⟩ := Bool.and_eq_true_iff.mp hend
  have hd := drained_of_test hdrained
  exact ⟨os, s, hrun, hd, of_decide_eq_true hadmitted, System.attended_of_run hrun hd⟩

/-- A threshold of zero is no error to the server: the handler drops the one of
`Keygen::new`, and the request is processing for ever. -/
theorem unattended_of_threshold :
    ∃ os s, Run System.step anyStep (bobsSystem keygen nothing nothing) os s ∧ s.Drained ∧
      .keygen (keygenOf "k1" [.alice, .bob] 0) ∈ System.admittedRequests os ∧
      System.statusesOf "k1" (System.sent os) = [.received, .processing] ∧
      ¬ (System.Answered os "k1" ∨
        System.Attended os s (.keygen (keygenOf "k1" [.alice, .bob] 0))) := by
  obtain ⟨os, s, hrun, hend⟩ := Run.ofTest System.step anyStep
    (bobsSystem keygen nothing nothing) (takenUp (keygenOf "k1" [.alice, .bob] 0))
    (fun r => drained r.1 && decide
      (.keygen (keygenOf "k1" [.alice, .bob] 0) ∈ System.admittedRequests r.2 ∧
        System.statusesOf "k1" (System.sent r.2) = [.received, .processing] ∧
        r.1.node.coordinator.keygenRunners "k1@73ee5cd6c20e0c08" = none ∧
        r.1.node.coordinator.offlineStateRunners "k1@73ee5cd6c20e0c08" = none ∧
        r.1.node.coordinator.signers "k1@73ee5cd6c20e0c08" = none))
    (by decide +kernel) (admits_anyStep _ _)
  obtain ⟨hdrained, htest⟩ := Bool.and_eq_true_iff.mp hend
  obtain ⟨hadmitted, hstatuses, hKG, hO, hS⟩ := of_decide_eq_true htest
  refine ⟨os, s, hrun, drained_of_test hdrained, hadmitted, hstatuses, ?_⟩
  rintro (⟨last, hlast, hfinal⟩ | ⟨gid, hgid, hattends⟩)
  · rw [hstatuses] at hlast
    cases hlast
    cases hfinal
  · have hroom : PublicKeyGroup.groupIdOf (keyTexts [.alice, .bob]) = .ok "73ee5cd6c20e0c08" := by
      decide +kernel
    cases hroom.symm.trans hgid
    cases hattends with
    | keygen ha => exact absurd (hKG.symm.trans ha) (by simp)
    | offline ha => exact absurd (hO.symm.trans ha) (by simp)
    | signer ha => exact absurd (hS.symm.trans ha) (by simp)

end Sample

end MpcServer

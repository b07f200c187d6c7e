import MpcServer.Lib.Registry
import MpcServer.Actors.Identities
import MpcServer.Sample

/-!
# Which runners are registered

A session begins with its runner registered under its room, in the map of its
kind. The output of an offline player takes the registration back; the output
of a keygen player takes one out of the offline players' map instead, and that
of a signer takes back none. So the maps hold exactly the unfinished sessions
as long as neither of the two has been handled, and never again after that.
-/

namespace MpcServer

open Rust Rust.Method Machine

variable {C : Crates}

namespace Node

/-- The rooms of the keygen players. -/
def roomsKG (n : Node C) : List String := n.identitiesKG.map (·.room)

/-- The rooms of the offline players. -/
def roomsO (n : Node C) : List String := n.identitiesO.map (·.room)

/-- The rooms of the signers. -/
def roomsS (n : Node C) : List String := n.identitiesS.map (·.task.room)

section
variable (n : Node C)

theorem length_roomsKG : n.roomsKG.length = n.playersKG.length := by
  simp [roomsKG, identitiesKG]

theorem length_roomsO : n.roomsO.length = n.playersO.length := by
  simp [roomsO, identitiesO]

theorem length_roomsS : n.roomsS.length = n.signers.length := by
  simp [roomsS, identitiesS]

end

/-- The keygen player whose output is handled. -/
def endedKG : Obs C → Option Addr
  | .handled (.outputKG a _) => some a
  | _ => none

/-- The offline player whose output is taken up. -/
def endedO : Obs C → Option Addr
  | .handled (.outputO a _) => some a
  | _ => none

/-- The signer whose output is taken up. -/
def endedS : Obs C → Option Addr
  | .handled (.outputS a _) => some a
  | _ => none

/-- The output of keygen player `a` has been handled. -/
abbrev FinishedKG (os : List (Obs C)) (a : Addr) : Prop := a ∈ os.filterMap endedKG

/-- The output of the offline player has been taken up. -/
abbrev FinishedO (os : List (Obs C)) (a : Addr) : Prop := a ∈ os.filterMap endedO

/-- The output of the signer has been taken up. -/
abbrev FinishedS (os : List (Obs C)) (a : Addr) : Prop := a ∈ os.filterMap endedS

section
variable {os : List (Obs C)} {a : Addr}

theorem mem_filterMap_iff {α : Type} {ended : Obs C → Option Addr} {output : α → Obs C}
    (h : ∀ x, ended x = some a ↔ ∃ out, x = output out) :
    a ∈ os.filterMap ended ↔ ∃ out, output out ∈ os := by
  simp only [List.mem_filterMap, h]
  constructor
  · rintro ⟨_, hx, out, rfl⟩
    exact ⟨out, hx⟩
  · rintro ⟨out, hout⟩
    exact ⟨_, hout, out, rfl⟩

theorem endedKG_eq_some {x : Obs C} : endedKG x = some a ↔ ∃ out, x = .handled (.outputKG a out) := by
  fun_cases endedKG x <;> simp_all [eq_comm]

theorem endedO_eq_some {x : Obs C} : endedO x = some a ↔ ∃ out, x = .handled (.outputO a out) := by
  fun_cases endedO x <;> simp_all [eq_comm]

theorem endedS_eq_some {x : Obs C} : endedS x = some a ↔ ∃ out, x = .handled (.outputS a out) := by
  fun_cases endedS x <;> simp_all [eq_comm]

theorem finishedKG_iff : FinishedKG os a ↔ ∃ out, .handled (.outputKG a out) ∈ os :=
  mem_filterMap_iff fun _ => endedKG_eq_some

theorem finishedO_iff : FinishedO os a ↔ ∃ out, .handled (.outputO a out) ∈ os :=
  mem_filterMap_iff fun _ => endedO_eq_some

theorem finishedS_iff : FinishedS os a ↔ ∃ out, .handled (.outputS a out) ∈ os :=
  mem_filterMap_iff fun _ => endedS_eq_some

end

/-- The three maps hold the unfinished sessions and nothing else. -/
structure HoldsUnfinished (os : List (Obs C)) (n : Node C) : Prop where
  keygen : Registry.Holds n.coordinator.keygenRunners n.roomsKG (FinishedKG os)
  offline : Registry.Holds n.coordinator.offlineStateRunners n.roomsO (FinishedO os)
  signers : Registry.Holds n.coordinator.signers n.roomsS (FinishedS os)

/-- The room of a runner whose output was handled is no key of its map. -/
structure ReleasesFinished (os : List (Obs C)) (n : Node C) : Prop where
  keygen : ∀ a room, n.roomsKG[a]? = some room → FinishedKG os a →
    n.coordinator.keygenRunners room = none
  offline : ∀ a room, n.roomsO[a]? = some room → FinishedO os a →
    n.coordinator.offlineStateRunners room = none
  signers : ∀ a room, n.roomsS[a]? = some room → FinishedS os a →
    n.coordinator.signers room = none

/-! ## Sessions with rooms of their own -/

/-- The room a request gets is not among those taken. -/
def Avoids (room : String → String) (keys taken : List String) : Prop :=
  match PublicKeyGroup.groupIdOf keys with
  | .ok gid => room gid ∉ taken
  | .error _ => True

instance (room : String → String) (keys taken : List String) :
    Decidable (Avoids room keys taken) := by
  unfold Avoids
  split <;> infer_instance

theorem Avoids.not_mem {room : String → String} {keys taken : List String} {gid : String}
    (h : Avoids room keys taken) (hgid : PublicKeyGroup.groupIdOf keys = .ok gid) :
    room gid ∉ taken := by
  simpa [Avoids, hgid] using h

/-- The runner that a mail may start gets a room that none of its kind had. -/
def OwnRoom (n : Node C) : Mail C → Prop
  | .request (.keygen req) => Avoids (makeRoomId req.requestId) req.participantPublicKeys n.roomsKG
  | .request (.sign req) => Avoids (req.requestId ++ "@" ++ ·) req.participantPublicKeys n.roomsO
  | .outputO _ out => out.input.room ∉ n.roomsS
  | _ => True

instance (n : Node C) (m : Mail C) : Decidable (OwnRoom n m) :=
  match m with
  | .request (.keygen _) => inferInstanceAs (Decidable (Avoids _ _ _))
  | .request (.sign _) => inferInstanceAs (Decidable (Avoids _ _ _))
  | .outputO .. => inferInstanceAs (Decidable (_ ∉ _))
  | .outgoing _ | .errorKG _ | .errorO _ | .outputKG .. | .outputS .. => .isTrue trivial

/-- Where a mail is taken up, its runner gets a room of its own. -/
def FreshRooms (n : Node C) (e : Event) : Prop :=
  match e, n.mailbox with
  | .mail _, m :: _ => OwnRoom n m
  | _, _ => True

instance (n : Node C) (e : Event) : Decidable (FreshRooms n e) :=
  match n, e with
  | { mailbox := m :: _, .. }, .mail _ => inferInstanceAs (Decidable (OwnRoom _ m))
  | { mailbox := [], .. }, .mail _ => .isTrue trivial
  | _, .wire .. | _, .finished | _, .sendOne _ | _, .request _ | _, .fire _ | _, .retry _
  | _, .tickKG .. | _, .tickO .. | _, .playKG .. | _, .playO .. | _, .startS _ | _, .playS _ => .isTrue trivial

theorem FreshRooms.ownRoom {n : Node C} {amb : Ambient} {m : Mail C} {rest : List (Mail C)}
    (h : FreshRooms n (.mail amb)) (hbox : n.mailbox = m :: rest) : OwnRoom n m := by
  simpa [FreshRooms, hbox] using h

/-! ## What a step does to the registrations -/

/-- The room under which a mail has a keygen player registered. -/
def RegistersKG (m : Mail C) (room : String) : Prop :=
  ∃ req gid, m = .request (.keygen req) ∧
    PublicKeyGroup.groupIdOf req.participantPublicKeys = .ok gid ∧
    room = makeRoomId req.requestId gid

/-- The room under which a mail has an offline player registered. -/
def RegistersO (m : Mail C) (room : String) : Prop :=
  ∃ req gid, m = .request (.sign req) ∧
    PublicKeyGroup.groupIdOf req.participantPublicKeys = .ok gid ∧
    room = req.requestId ++ "@" ++ gid

/-- The room under which a mail has a signer registered. -/
def RegistersS (m : Mail C) (room : String) : Prop :=
  ∃ a out, m = .outputO a out ∧ room = out.input.room

/-- The room from which a mail takes an offline player back: an output's own, or the room
of a keygen. -/
def ReleasesO (m : Mail C) (room : String) : Prop :=
  (∃ a out, m = .outputO a out ∧ room = out.input.room) ∨
    ∃ a out gid, m = .outputKG a out ∧
      PublicKeyGroup.groupIdOf out.input.participantPublicKeys = .ok gid ∧
      room = makeRoomId out.input.requestId gid

/-- The mail that is taken up does this to the room. -/
def TakenUp (n : Node C) (e : Event) (does : Mail C → String → Prop) (room : String) : Prop :=
  ∃ amb m rest, e = .mail amb ∧ n.mailbox = m :: rest ∧ does m room

/-- What a step does to the three maps. -/
structure Reregisters (n : Node C) (e : Event) (t : Node C) : Prop where
  keygen : Registry.Turn (n.TakenUp e RegistersKG) (fun _ => False)
    n.coordinator.keygenRunners n.roomsKG t.coordinator.keygenRunners t.roomsKG
  offline : Registry.Turn (n.TakenUp e RegistersO) (n.TakenUp e ReleasesO)
    n.coordinator.offlineStateRunners n.roomsO t.coordinator.offlineStateRunners t.roomsO
  signers : Registry.Turn (n.TakenUp e RegistersS) (fun _ => False)
    n.coordinator.signers n.roomsS t.coordinator.signers t.roomsS

section
variable {os o : List (Obs C)} {n t : Node C} {e : Event}

/-- **The registrations of a step** are those of the mail that is taken up. -/
theorem Steps.reregisters (hs : Steps n e t o) : Reregisters n e t := by
  have hgrows := hs.grows
  have hKG : t.roomsKG = n.roomsKG ++ (o.filterMap startedKG).map (·.room) := by
    rw [roomsKG, hgrows.keygen, List.map_append, roomsKG]
  have hO : t.roomsO = n.roomsO ++ (o.filterMap startedO).map (·.room) := by
    rw [roomsO, hgrows.offline, List.map_append, roomsO]
  have hS : t.roomsS = n.roomsS ++ (o.filterMap startedS).map (·.task.room) := by
    rw [roomsS, hgrows.signers, List.map_append, roomsS]
  -- a map that stays as it is, and no runner of its kind is started
  have hstillKG (hreg : t.coordinator.keygenRunners = n.coordinator.keygenRunners)
      (hnone : o.filterMap startedKG = []) : Registry.Turn (n.TakenUp e RegistersKG)
      (fun _ => False) n.coordinator.keygenRunners n.roomsKG t.coordinator.keygenRunners
      t.roomsKG := .of_still hreg hKG hnone
  have hstillO (hreg : t.coordinator.offlineStateRunners = n.coordinator.offlineStateRunners)
      (hnone : o.filterMap startedO = []) : Registry.Turn (n.TakenUp e RegistersO)
      (n.TakenUp e ReleasesO) n.coordinator.offlineStateRunners n.roomsO
      t.coordinator.offlineStateRunners t.roomsO := .of_still hreg hO hnone
  have hstillS (hreg : t.coordinator.signers = n.coordinator.signers)
      (hnone : o.filterMap startedS = []) : Registry.Turn (n.TakenUp e RegistersS)
      (fun _ => False) n.coordinator.signers n.roomsS t.coordinator.signers t.roomsS :=
    .of_still hreg hS hnone
  cases hs.turns with
  | idle hc ho =>
      have hnobody := fun x hx => startsNobody_of_idle (ho x hx)
      exact ⟨hstillKG (by rw [hc]) (startedKG_nil hnobody),
        hstillO (by rw [hc]) (startedO_nil hnobody), hstillS (by rw [hc]) (startedS_nil hnobody)⟩
  | @handled amb m rest r c es he hbox hh hc _ _ ho =>
      subst ho
      have htaken {does : Mail C → String → Prop} {room : String} (h : does m room) :
          n.TakenUp e does room := ⟨amb, m, rest, he, hbox, h⟩
      cases hh with
      | keygenRequest hk =>
          cases hk with
          | refused _ => exact ⟨hstillKG (by rw [hc]) rfl, hstillO (by rw [hc]) rfl,
              hstillS (by rw [hc]) rfl⟩
          | began hbegin _ =>
              obtain ⟨gid, hgid, rfl⟩ := PublicKeyGroup.new_eq_ok.mp hbegin.1
              exact ⟨.of_registered (length_roomsKG n) (by rw [hc]; rfl) hKG rfl
                (htaken ⟨_, gid, rfl, hgid, rfl⟩), hstillO (by rw [hc]) rfl,
                hstillS (by rw [hc]) rfl⟩
      | signRequest hk =>
          cases hk with
          | began hfind _ _ _ =>
              obtain ⟨gid, hgid, rfl⟩ := PublicKeyGroup.new_eq_ok.mp hfind.2.2
              exact ⟨hstillKG (by rw [hc]) rfl, .of_registered (length_roomsO n) (by rw [hc]; rfl)
                hO rfl (htaken ⟨_, gid, rfl, hgid, rfl⟩), hstillS (by rw [hc]) rfl⟩
          | _ => exact ⟨hstillKG (by rw [hc]) rfl, hstillO (by rw [hc]) rfl,
              hstillS (by rw [hc]) rfl⟩
      | @outgoing msg _ hes =>
          have hnobody : ∀ x ∈ .handled (.outgoing msg) :: es.map Obs.effect, StartsNobody x :=
            List.forall_mem_cons.mpr ⟨⟨rfl, rfl, rfl⟩, startsNobody_of_sends hes⟩
          exact ⟨hstillKG (by rw [hc]) (startedKG_nil hnobody),
            hstillO (by rw [hc]) (startedO_nil hnobody),
            hstillS (by rw [hc]) (startedS_nil hnobody)⟩
      | outputKG hk =>
          cases hk with
          | panicked _ => exact ⟨hstillKG (by rw [hc]) rfl, hstillO (by rw [hc]) rfl,
              hstillS (by rw [hc]) rfl⟩
          | done hnew =>
              obtain ⟨gid, hgid, rfl⟩ := PublicKeyGroup.new_eq_ok.mp hnew
              exact ⟨hstillKG (by rw [hc]) rfl, .of_released (by rw [hc]) hO rfl
                (htaken (.inr ⟨_, _, gid, rfl, hgid, rfl⟩)), hstillS (by rw [hc]) rfl⟩
      | outputO hk =>
          cases hk with
          | signing _ =>
              exact ⟨hstillKG (by rw [hc]) rfl, .of_released (by rw [hc]) hO rfl
                (htaken (.inl ⟨_, _, rfl, rfl⟩)), .of_registered (length_roomsS n) (by rw [hc]; rfl)
                hS rfl (htaken ⟨_, _, rfl, rfl⟩)⟩
          | badHash _ =>
              exact ⟨hstillKG (by rw [hc]) rfl, .of_released (by rw [hc]) hO rfl
                (htaken (.inl ⟨_, _, rfl, rfl⟩)), hstillS (by rw [hc]) rfl⟩
      | outputS => exact ⟨hstillKG (by rw [hc]) rfl, hstillO (by rw [hc]) rfl,
          hstillS (by rw [hc]) rfl⟩

/-! ## Keygen players

No registration is ever taken back. -/

/-- A keygen player stays in its map for ever. -/
def TracksKG (n : Node C) : Prop :=
  Registry.Tracks n.coordinator.keygenRunners n.roomsKG fun _ => False

theorem tracksKG_step (h : TracksKG n) (hg : FreshRooms n e) (hs : Steps n e t o) :
    TracksKG t := by
  refine Registry.Tracks.turn h hs.reregisters.keygen ?_
  rintro room ⟨amb, _, rest, rfl, hbox, req, gid, rfl, hgid, rfl⟩
  exact (hg.ownRoom hbox).not_mem hgid

/-! ## Signers

Here neither. -/

/-- So does a signer. -/
def TracksS (n : Node C) : Prop :=
  Registry.Tracks n.coordinator.signers n.roomsS fun _ => False

theorem tracksS_step (h : TracksS n) (hg : FreshRooms n e) (hs : Steps n e t o) :
    TracksS t := by
  refine Registry.Tracks.turn h hs.reregisters.signers ?_
  rintro room ⟨amb, _, rest, rfl, hbox, a, out, rfl, rfl⟩
  exact hg.ownRoom hbox

/-! ## Offline players

The map is in step until the output of a keygen player is handled. -/

/-- An offline player stays until its output is taken up. -/
def TracksO (os : List (Obs C)) (n : Node C) : Prop :=
  Registry.Tracks n.coordinator.offlineStateRunners n.roomsO (FinishedO os)

theorem finishedO_append {a : Addr} (h : o.filterMap endedO = []) :
    FinishedO (os ++ o) a ↔ FinishedO os a := by
  rw [FinishedO, List.filterMap_append, h, List.append_nil]

/-- Nobody is done before it has begun. -/
theorem Genuine.not_finishedO (hq : Genuine os n) : ¬ FinishedO os n.roomsO.length := by
  intro hdone
  obtain ⟨out, hout⟩ := finishedO_iff.mp hdone
  obtain ⟨i, hi, -⟩ := hq.handled _ hout
  have hlt := (List.getElem?_eq_some_iff.mp hi).1
  simp [roomsO] at hlt

theorem tracksO_step (h : TracksO os n) (hq : Genuine os n)
    (hroom : ∀ i ∈ n.identitiesO, i.input.room = i.room)
    (hnone : ∀ a, ¬ FinishedKG (os ++ o) a) (hg : FreshRooms n e) (hs : Steps n e t o) :
    TracksO (os ++ o) t := by
  have hsame : o.filterMap startedO = [] → t.roomsO = n.roomsO := by
    intro ho
    rw [roomsO, hs.grows.offline, ho, List.append_nil, roomsO]
  have hstill : t.coordinator.offlineStateRunners = n.coordinator.offlineStateRunners →
      o.filterMap startedO = [] → o.filterMap endedO = [] → TracksO (os ++ o) t := by
    intro hmap ho hend
    unfold TracksO
    rw [hmap, hsame ho]
    exact h.congr fun a _ => (finishedO_append hend).symm
  -- an output gives up the room its player was registered for
  have hrelease : ∀ a out rest, n.mailbox = .outputO a out :: rest →
      o.filterMap startedO = [] → o.filterMap endedO = [a] →
      Registry.Tracks (Function.update n.coordinator.offlineStateRunners out.input.room none)
        t.roomsO (FinishedO (os ++ o)) := by
    intro a out rest hbox ho hend
    obtain ⟨i, hi, hin⟩ := hq.waiting _ (hbox ▸ List.mem_cons_self)
    rw [hsame ho]
    refine Registry.Tracks.release (a := a) h ?_ fun b => ?_
    · rw [hin, hroom i (List.mem_of_getElem? hi)]
      simp [roomsO, hi]
    · rw [FinishedO, List.filterMap_append, hend, List.mem_append, List.mem_singleton]
  cases hs.turns with
  | idle hc ho =>
      refine hstill (by rw [hc]) (startedO_nil fun x hx => startsNobody_of_idle (ho x hx))
        (List.filterMap_eq_nil_iff.mpr fun x hx => ?_)
      have hidle := ho x hx
      cases x with
      | handled m => cases m <;> first | rfl | exact absurd rfl hidle
      | _ => rfl
  | handled he hbox hh hc _ _ ho =>
      subst he
      cases hh with
      | keygenRequest hk => cases hk <;> exact hstill (by rw [hc]) (by rw [ho]; rfl) (by rw [ho]; rfl)
      | signRequest hk =>
          cases hk with
          | began hfind _ _ _ =>
              obtain ⟨gid, hgid, rfl⟩ := PublicKeyGroup.new_eq_ok.mp hfind.2.2
              have hregister := Registry.Tracks.register h ((hg.ownRoom hbox).not_mem hgid)
                hq.not_finishedO
              unfold TracksO
              rw [hc, roomsO, hs.grows.offline, List.map_append]
              refine Registry.Tracks.congr (?_ : Registry.Tracks _ _ (FinishedO os)) fun a _ =>
                (finishedO_append (by rw [ho]; rfl)).symm
              rw [length_roomsO] at hregister
              rw [ho]
              exact hregister
          | _ => exact hstill (by rw [hc]) (by rw [ho]; rfl) (by rw [ho]; rfl)
      | outgoing hes =>
          refine hstill (by rw [hc]) ?_ ?_ <;> rw [ho]
          · exact startedO_nil
              (List.forall_mem_cons.mpr ⟨⟨rfl, rfl, rfl⟩, startsNobody_of_sends hes⟩)
          · simp [endedO, List.filterMap_cons]
      | @outputKG a out _ _ _ hk =>
          -- a keygen output frees its room in this map, not in its own
          have hend := finishedKG_iff.mpr
            ⟨out, List.mem_append_right os (ho ▸ List.mem_cons_self)⟩
          exact absurd hend (hnone a)
      | outputO hk =>
          unfold TracksO
          cases hk <;> rw [hc] <;>
            exact hrelease _ _ _ hbox (by rw [ho]; rfl) (by rw [ho]; rfl)
      | outputS => exact hstill (by rw [hc]) (by rw [ho]; rfl) (by rw [ho]; rfl)

/-! ## Runs -/

/-- What the maps hold in a run in which every session has a room of its own. -/
structure Registered (os : List (Obs C)) (n : Node C) : Prop where
  genuine : Genuine os n
  room : ∀ i ∈ n.identitiesO, i.input.room = i.room
  keygen : TracksKG n
  offline : (∀ a, ¬ FinishedKG os a) → TracksO os n
  signers : TracksS n

theorem Registered.init (sk : C.SecretKey) (db : Tree C) : Registered [] (init sk db) where
  genuine := .init sk db
  room _ h := by cases h
  keygen := .empty _
  offline _ := .empty _
  signers := .empty _

theorem Registered.step (hr : Registered os n) (hg : FreshRooms n e) (hs : Steps n e t o) :
    Registered (os ++ o) t where
  genuine := hr.genuine.step hs
  room := room_of_identityO hs hr.room
  keygen := tracksKG_step hr.keygen hg hs
  offline hnone := by
    have hbefore : ∀ a, ¬ FinishedKG os a := fun a hdone => hnone a (by
      rw [FinishedKG, List.filterMap_append]
      exact List.mem_append_left _ hdone)
    exact tracksO_step (hr.offline hbefore) hr.genuine hr.room hnone hg hs
  signers := tracksS_step hr.signers hg hs

/-- **The maps hold the unfinished sessions** and release the finished ones,
in a run in which every session has a room of its own, exactly as long as the
output of no keygen player and of no signer has been handled. -/
theorem holdsUnfinished_iff {sk : C.SecretKey} {db : Tree C}
    (hrun : Run Node.step FreshRooms (Node.init sk db) os n) :
    HoldsUnfinished os n ∧ ReleasesFinished os n ↔
      (∀ a, ¬ FinishedKG os a) ∧ ∀ a, ¬ FinishedS os a := by
  have hr : Registered os n :=
    hrun.invariant _ (.init sk db) fun _ hr hg hs => hr.step hg (step_cases hs)
  constructor
  · rintro ⟨hholds, -⟩
    constructor
    · intro a hdone
      -- the player is still registered
      obtain ⟨out, hout⟩ := finishedKG_iff.mp hdone
      obtain ⟨i, hi, -⟩ := hr.genuine.handled _ hout
      have hroom : n.roomsKG[a]? = some i.room := by simp [roomsKG, hi]
      exact ((hholds.keygen _ a).mp ((hr.keygen.holds _ a).mpr ⟨hroom, not_false⟩)).2 hdone
    · intro a hdone
      obtain ⟨out, hout⟩ := finishedS_iff.mp hdone
      obtain ⟨i, hi, -⟩ := hr.genuine.handled _ hout
      have hroom : n.roomsS[a]? = some i.task.room := by simp [roomsS, hi]
      exact ((hholds.signers _ a).mp ((hr.signers.holds _ a).mpr ⟨hroom, not_false⟩)).2
        hdone
  · rintro ⟨hkeygen, hsigners⟩
    have hO := hr.offline hkeygen
    refine ⟨⟨?_, hO.holds, ?_⟩, ⟨fun a _ _ hdone => absurd hdone (hkeygen a), fun a room ha hdone =>
      hO.holds.free hO.distinct ha hdone, fun a _ _ hdone => absurd hdone (hsigners a)⟩⟩
    · exact hr.keygen.holds.congr fun a _ => iff_of_false not_false (hkeygen a)
    · exact hr.signers.holds.congr fun a _ => iff_of_false not_false (hsigners a)

end

end Node

namespace Sample

/-- A signing session with Alice's message of the offline stage. -/
def signing : Scenario where
  wires := [fromAlice "s1@73ee5cd6c20e0c08"
    { sender := 1, receiver := none, body := offlineBodyText 1 }]
  messages := [{ sender := 1, receiver := none, body := offlineBodyText 1 },
    { sender := 2, receiver := none, body := offlineBodyText 1 }]

/-- The offline stage is over and the signer has taken its room. -/
theorem holdsUnfinished_after_offline :
    ∃ os n, Run Node.step Node.FreshRooms (bobsNode signing shared) os n ∧
      Node.FinishedO os 0 ∧ n.roomsS = ["s1@73ee5cd6c20e0c08"] ∧
        Node.HoldsUnfinished os n ∧ Node.ReleasesFinished os n := by
  obtain ⟨os, n, hrun, hend⟩ := Run.ofGuardedTest Node.step Node.FreshRooms
    (bobsNode signing shared)
    [.request (.sign (signOf "s1" [.alice, .bob] "ff")), .mail allWell, .tickO 0 0,
      .mail allWell, arrives (fromAlice "s1@73ee5cd6c20e0c08"
        { sender := 1, receiver := none, body := offlineBodyText 1 }), .playO 0 0, .mail allWell]
    (fun r => decide (Node.FinishedO r.2 0 ∧ r.1.roomsS = ["s1@73ee5cd6c20e0c08"] ∧
      r.2.filterMap Node.endedKG = [] ∧ r.2.filterMap Node.endedS = []))
    (by decide +kernel)
  obtain ⟨hdone, hroom, hkeygen, hsigners⟩ := of_decide_eq_true hend
  refine ⟨os, n, hrun, hdone, hroom, (Node.holdsUnfinished_iff hrun).mpr ⟨fun a => ?_, fun a => ?_⟩⟩
  · simp [Node.FinishedKG, hkeygen]
  · simp [Node.FinishedS, hsigners]

/-- The keygen is done and its player is still registered. -/
theorem not_releasesFinished_after_keygen :
    ∃ os n, Run Node.step anyStep (bobsNode keygen nothing) os n ∧
      ¬ Node.ReleasesFinished os n := by
  obtain ⟨os, n, hrun, hend⟩ := Run.ofTest Node.step anyStep
    (bobsNode keygen nothing) (runKeygen ++ [.mail allWell])
    (fun r => decide (Node.FinishedKG r.2 0 ∧
      r.1.roomsKG[0]? = some "k1@73ee5cd6c20e0c08" ∧
      r.1.coordinator.keygenRunners "k1@73ee5cd6c20e0c08" = some 0))
    (by decide +kernel) (admits_anyStep _ _)
  obtain ⟨hdone, hroom, hkept⟩ := of_decide_eq_true hend
  refine ⟨os, n, hrun, fun h => ?_⟩
  cases hkept.symm.trans (h.keygen 0 _ hroom hdone)

end Sample

end MpcServer

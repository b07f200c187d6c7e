import MpcServer.Groups
import MpcServer.Actors.Failures

/-!
# The numbers of a keygen

A request lists keys and names a threshold. The protocol runs with three
sixteen-bit numbers taken from it: the place of the own key, the threshold, the
count of the keys. Nothing checks that they fit, or that the keys differ.
-/

namespace MpcServer

open Rust Rust.Method Machine

variable {C : Crates}

namespace PublicKeyGroup

/-- The index of a member: its first place in the list, counted from one. -/
theorem getIndex_of_mem {group : PublicKeyGroup} {pk : String} (h : pk ∈ group.publicKeys) :
    group.getIndex pk = some (group.publicKeys.idxOf pk + 1) := by
  have hexists : ∃ x, x ∈ group.publicKeys ∧ decide (x = pk) = true :=
    ⟨pk, h, decide_eq_true rfl⟩
  rw [getIndex, List.findIdx?_eq_some_of_exists hexists]
  rfl

theorem getI_eq_ok {group : PublicKeyGroup} {i : UInt16} :
    group.getI = .ok i ↔ group.ownPublicKey ∈ group.publicKeys ∧
      i = UInt16.ofNat (group.publicKeys.idxOf group.ownPublicKey + 1) := by
  unfold getI
  by_cases hmem : group.ownPublicKey ∈ group.publicKeys
  · rw [getIndex_of_mem hmem]
    simp [hmem, eq_comm]
  · have hnone : group.getIndex group.ownPublicKey = none := by
      rw [← Option.not_isSome_iff_eq_none, getIndex_isSome_iff]
      exact hmem
    rw [hnone]
    simp [hmem]

/-- Bytes 2 and 10 of every key are the ends of characters, and no key is shorter. -/
def Sliceable (keys : List String) : Prop := ∀ key ∈ keys, (byteSlice key 2 10).isOk = true

instance (keys : List String) : Decidable (Sliceable keys) :=
  inferInstanceAs (Decidable (∀ key ∈ keys, _))

theorem groupIdOf_isOk_iff {keys : List String} : (groupIdOf keys).isOk = true ↔ Sliceable keys := by
  induction keys with
  | nil => exact iff_of_true rfl fun key h => absurd h List.not_mem_nil
  | cons pk pks ih =>
      rw [Sliceable, List.forall_mem_cons, groupIdOf]
      cases byteSlice pk 2 10 with
      | error p => exact iff_of_false Bool.false_ne_true fun h => Bool.false_ne_true h.1
      | ok piece =>
          rw [← Sliceable, ← ih]
          cases groupIdOf pks with
          | error p => exact iff_of_false Bool.false_ne_true fun h => Bool.false_ne_true h.2
          | ok rest => exact iff_of_true rfl ⟨rfl, rfl⟩

theorem new_isOk_iff {keys : List String} {t : UInt16} {own : String} :
    (new keys t own).isOk = true ↔ Sliceable keys := by
  rw [← groupIdOf_isOk_iff]
  unfold new
  cases groupIdOf keys <;> rfl

end PublicKeyGroup

/-- A number that fits survives its cast. -/
theorem toNat_ofNat_eq_iff {n : Nat} : (UInt16.ofNat n).toNat = n ↔ n < 2 ^ 16 := by
  rw [UInt16.toNat_ofNat']
  exact Nat.mod_eq_iff_lt (by decide)

/-- `threshold as u16`. -/
theorem toNat_toUInt16_eq_iff {t : UInt32} : t.toUInt16.toNat = t.toNat ↔ t.toNat < 2 ^ 16 := by
  rw [UInt32.toNat_toUInt16]
  exact Nat.mod_eq_iff_lt (by decide)

namespace Coordinator

/-! ## The numbers a session is run with -/

section
variable {c : Coordinator C} {req : KeygenRequest} {group : PublicKeyGroup} {i : UInt16}
  {state : C.Keygen}

/-- A keygen is run with what `new` makes of its request. -/
theorem BeginsKeygen.group_eq (h : c.BeginsKeygen req group i state) :
    ∃ gid, PublicKeyGroup.groupIdOf req.participantPublicKeys = .ok gid ∧
      group = ⟨gid, req.threshold.toUInt16, req.participantPublicKeys, c.pkStr⟩ :=
  PublicKeyGroup.new_eq_ok.mp h.1

/-- The party index is the place of the own key, cut to sixteen bits. -/
theorem BeginsKeygen.index (h : c.BeginsKeygen req group i state) :
    c.pkStr ∈ req.participantPublicKeys ∧
      i = UInt16.ofNat (req.participantPublicKeys.idxOf c.pkStr + 1) := by
  obtain ⟨gid, -, rfl⟩ := h.group_eq
  exact PublicKeyGroup.getI_eq_ok.mp h.2.1

theorem BeginsKeygen.unique {group' : PublicKeyGroup} {i' : UInt16} {state' : C.Keygen}
    (h : c.BeginsKeygen req group i state) (h' : c.BeginsKeygen req group' i' state') :
    group' = group ∧ i' = i ∧ state' = state := by
  cases h.1.symm.trans h'.1
  cases h.2.1.symm.trans h'.2.1
  cases h.2.2.symm.trans h'.2.2
  exact ⟨rfl, rfl, rfl⟩

end

/-- The parameters of the state machine are the numbers of the request: the place
of the own key, the threshold asked for, the count of the keys. -/
structure AsAsked (c : Coordinator C) (req : KeygenRequest) (i t n : UInt16) : Prop where
  listed : c.pkStr ∈ req.participantPublicKeys
  index : i.toNat = req.participantPublicKeys.idxOf c.pkStr + 1
  threshold : t.toNat = req.threshold.toNat
  parties : n.toNat = req.participantPublicKeys.length

/-- The handler of the output finds the same group id and the same room, whatever
has become of the coordinator: it is this room it takes out of a map. -/
def Recomputes (C : Crates) (req : KeygenRequest) (groupId room : String) : Prop :=
  ∀ (c : Coordinator C) (out : ProtocolOutput KeygenRequest C.LocalKey) (ctx : Ctx),
    out.input = req → ∃ group, PublicKeyGroup.new out.input.participantPublicKeys
        out.input.threshold.toUInt16 c.pkStr = .ok group ∧
      group.groupId = groupId ∧ makeRoomId out.input.requestId group.groupId = room ∧
      (handleProtocolOutputKG out ctx).run c = (.ok (),
        { c with
          db := c.dbAfterOutputKG out ctx
          offlineStateRunners := Function.update c.offlineStateRunners room none },
        [.status (keygenDone out)])

/-- A player is started with the numbers of its request, and its output leads back
to its room. -/
def StartsAsAsked (c : Coordinator C) (req : KeygenRequest) (p : PlayerKG C) : Prop :=
  ∃ group i, c.BeginsKeygen req group i p.state ∧ p.index = i ∧
    c.AsAsked req i group.getT group.getN ∧ Recomputes C req group.groupId p.room

/-- A keygen request that starts a player begins its session. -/
theorem begins_of_startKG {c : Coordinator C} {req : KeygenRequest} {ctx : Ctx} {a : Addr}
    {p : PlayerKG C} (h : .startKG a p ∈ ((handleKeygenRequest req ctx).run c).2.2) :
    ∃ group i state, c.BeginsKeygen req group i state ∧
      p = MpcPlayer.new req (makeRoomId req.requestId group.groupId) i state := by
  have hends : KeygenRequested c req ctx _ _ _ := handleKeygenRequest_cases req ctx c
  generalize ((handleKeygenRequest req ctx).run c).1 = r,
    ((handleKeygenRequest req ctx).run c).2.1 = c',
    ((handleKeygenRequest req ctx).run c).2.2 = os at h hends
  cases hends with
  | refused _ => simp at h
  | began hbegins _ =>
      simp only [List.mem_cons, List.not_mem_nil, Effect.startKG.injEq, reduceCtorEq, false_or,
        or_false] at h
      exact ⟨_, _, _, hbegins, h.2⟩

/-- A session that begins starts its player. -/
theorem startKG_of_begins {c : Coordinator C} {req : KeygenRequest} {group : PublicKeyGroup}
    {i : UInt16} {state : C.Keygen} (h : c.BeginsKeygen req group i state) (ctx : Ctx) :
    .startKG ctx.freshKG (MpcPlayer.new req (makeRoomId req.requestId group.groupId) i state) ∈
      ((handleKeygenRequest req ctx).run c).2.2 := by
  have hends : KeygenRequested c req ctx _ _ _ := handleKeygenRequest_cases req ctx c
  generalize ((handleKeygenRequest req ctx).run c).1 = r,
    ((handleKeygenRequest req ctx).run c).2.1 = c',
    ((handleKeygenRequest req ctx).run c).2.2 = os at hends ⊢
  cases hends with
  | refused hnone => exact absurd h (hnone _ _ _)
  | began h' _ =>
      obtain ⟨rfl, rfl, rfl⟩ := h.unique h'
      simp

theorem recomputes_of_begins {c : Coordinator C} {req : KeygenRequest} {group : PublicKeyGroup}
    {i : UInt16} {state : C.Keygen} (h : c.BeginsKeygen req group i state) :
    Recomputes C req group.groupId (makeRoomId req.requestId group.groupId) := by
  intro c' out ctx hout
  subst hout
  obtain ⟨gid, hgid, rfl⟩ := h.group_eq
  have hnew := PublicKeyGroup.new_eq_ok.mpr
    ⟨gid, hgid, (rfl : (⟨gid, out.input.threshold.toUInt16, out.input.participantPublicKeys,
      c'.pkStr⟩ : PublicKeyGroup) = _)⟩
  refine ⟨_, hnew, rfl, rfl, ?_⟩
  have hends : KeygenOutput c' out ctx _ _ _ := handleProtocolOutputKG_cases out ctx c'
  rcases hrun : (handleProtocolOutputKG out ctx).run c' with ⟨r, d, os⟩
  rw [hrun] at hends
  cases hends with
  | panicked herror => cases hnew.symm.trans herror
  | done hok =>
      cases hnew.symm.trans hok
      rfl

theorem asAsked_iff {c : Coordinator C} {req : KeygenRequest} {group : PublicKeyGroup} {i : UInt16}
    {state : C.Keygen} (h : c.BeginsKeygen req group i state) :
    c.AsAsked req i group.getT group.getN ↔
      req.threshold.toNat < 2 ^ 16 ∧ req.participantPublicKeys.length < 2 ^ 16 := by
  obtain ⟨hlisted, hi⟩ := h.index
  obtain ⟨gid, -, rfl⟩ := h.group_eq
  constructor
  · intro hasked
    exact ⟨toNat_toUInt16_eq_iff.mp hasked.threshold, toNat_ofNat_eq_iff.mp hasked.parties⟩
  · rintro ⟨hthreshold, hparties⟩
    -- the place of a key is at most the count of them
    have hplace := List.idxOf_lt_length_of_mem hlisted
    refine ⟨hlisted, ?_, toNat_toUInt16_eq_iff.mpr hthreshold, toNat_ofNat_eq_iff.mpr hparties⟩
    rw [hi]
    exact toNat_ofNat_eq_iff.mpr (by omega)

/-- **When a keygen is run as it was asked for.** A request that starts a player
creates the state machine with the numbers of the request exactly if its threshold
and the number of its keys fit sixteen bits. -/
theorem startsAsAsked_iff {c : Coordinator C} {req : KeygenRequest} {ctx : Ctx} {a : Addr}
    {p : PlayerKG C} (h : .startKG a p ∈ ((handleKeygenRequest req ctx).run c).2.2) :
    c.StartsAsAsked req p ↔
      req.threshold.toNat < 2 ^ 16 ∧ req.participantPublicKeys.length < 2 ^ 16 := by
  obtain ⟨group, i, state, hbegins, rfl⟩ := begins_of_startKG h
  rw [← asAsked_iff hbegins]
  constructor
  · rintro ⟨group', i', hbegins', -, hasked, -⟩
    obtain ⟨rfl, rfl, -⟩ := hbegins.unique hbegins'
    exact hasked
  · intro hasked
    exact ⟨group, i, hbegins, rfl, hasked, recomputes_of_begins hbegins⟩

end Coordinator

namespace Sample

/-- Bob's server, before it has done anything. -/
def bobsCoordinator : Coordinator (crates keygen) := (bobsNode keygen nothing).coordinator

/-- A context in which everything succeeds. -/
def firstCtx : Ctx := { toAmbient := allWell, freshKG := 0, freshO := 0, freshS := 0 }

/-- Bob takes part in a keygen with Alice, at the second place. -/
theorem begins_with_alice (threshold : UInt32) (h : threshold.toUInt16 = 1) :
    bobsCoordinator.BeginsKeygen (keygenOf "k1" [.alice, .bob] threshold) pairsGroup 2
      (Rounds.new 2 1 2 1) := by
  refine ⟨?_, by decide +kernel, rfl⟩
  show PublicKeyGroup.new (keyTexts [.alice, .bob]) threshold.toUInt16 _ = _
  rw [h]
  decide +kernel

theorem startsAsAsked_pair :
    ∃ p, .startKG 0 p ∈ ((Coordinator.handleKeygenRequest (keygenOf "k1" [.alice, .bob] 1)
        firstCtx).run bobsCoordinator).2.2 ∧
      bobsCoordinator.StartsAsAsked (keygenOf "k1" [.alice, .bob] 1) p := by
  have hstart := Coordinator.startKG_of_begins (begins_with_alice 1 rfl) firstCtx
  exact ⟨_, hstart, (Coordinator.startsAsAsked_iff hstart).mpr ⟨by decide, by decide⟩⟩

/-- A threshold of 65537 is run as one of 1. -/
theorem not_startsAsAsked_of_threshold :
    ∃ p, .startKG 0 p ∈ ((Coordinator.handleKeygenRequest (keygenOf "k1" [.alice, .bob] 65537)
        firstCtx).run bobsCoordinator).2.2 ∧ p.state.t = 1 ∧
      ¬ bobsCoordinator.StartsAsAsked (keygenOf "k1" [.alice, .bob] 65537) p := by
  have hbegins := begins_with_alice 65537 rfl
  refine ⟨_, Coordinator.startKG_of_begins hbegins firstCtx, rfl, ?_⟩
  rintro ⟨group, i, hbegins', -, hasked, -⟩
  obtain ⟨rfl, rfl, -⟩ := hbegins.unique hbegins'
  exact absurd hasked.threshold (by decide)

end Sample

end MpcServer

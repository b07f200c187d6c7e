import Mathlib.Data.List.Nodup
import MpcServer.Indices
import MpcServer.Shares

/-!
# The participants of a signature

A sign request names some of the parties of a keygen. Their places in the keygen's
list are the indices their shares belong to, their places in the request's own list
the indices of the signing; the offline stage is given both.
-/

namespace MpcServer

open Rust Rust.Method

variable {C : Crates}

namespace Coordinator

theorem getIndices_of_members {group : PublicKeyGroup} {keys : List String}
    (h : ∀ key ∈ keys, key ∈ group.publicKeys) :
    keys.map group.getIndex = keys.map fun key => some (group.publicKeys.idxOf key + 1) :=
  List.map_congr_left fun key hkey => PublicKeyGroup.getIndex_of_mem (h key hkey)

/-- The participants are indexed exactly if they are as many as it takes and all are
members; then each gets its place in the keygen's list. -/
theorem participantIndices_eq_ok {group : PublicKeyGroup} {required : UInt16}
    {keys : List String} {sL : List UInt16} :
    participantIndices group required keys = .ok sL ↔
      keys.length = required.toNat ∧ (∀ key ∈ keys, key ∈ group.publicKeys) ∧
        sL = keys.map fun key => UInt16.ofNat (group.publicKeys.idxOf key + 1) := by
  by_cases hall : ∀ key ∈ keys, key ∈ group.publicKeys
  · -- all are found: the filter keeps everything and nothing counts as an error
    have hfound : (keys.map fun key => some (group.publicKeys.idxOf key + 1)).filter
        Option.isSome = keys.map fun key => some (group.publicKeys.idxOf key + 1) := by
      refine List.filter_eq_self.mpr fun o ho => ?_
      obtain ⟨key, -, rfl⟩ := List.mem_map.mp ho
      rfl
    have herrors : (keys.map fun key => some (group.publicKeys.idxOf key + 1)).filter
        (fun o => !o.isSome) = [] := by
      refine List.filter_eq_nil_iff.mpr fun o ho => ?_
      obtain ⟨key, -, rfl⟩ := List.mem_map.mp ho
      exact Bool.false_ne_true
    have hindices : ((keys.map fun key => some (group.publicKeys.idxOf key + 1)).filterMap
        id).map UInt16.ofNat =
          keys.map fun key => UInt16.ofNat (group.publicKeys.idxOf key + 1) := by
      rw [List.filterMap_map, List.map_filterMap, ← List.filterMap_eq_map]
      rfl
    simp only [participantIndices, getIndices_of_members hall, hfound, herrors, hindices,
      List.length_map, List.isEmpty_nil, not_true_eq_false, if_false, ne_eq, ite_not]
    by_cases hcount : keys.length = required.toNat
    · rw [if_pos hcount, Except.ok.injEq]
      exact ⟨fun h => ⟨hcount, hall, h.symm⟩, fun h => h.2.2.symm⟩
    · rw [if_neg hcount]
      exact iff_of_false (fun h => nomatch h) fun h => hcount h.1
  · -- a stranger is counted among the errors
    have herrors : ((keys.map group.getIndex).filter fun o => !o.isSome).isEmpty = false := by
      obtain ⟨key, hkey⟩ := not_forall.mp hall
      obtain ⟨hmem, hstranger⟩ := Classical.not_imp.mp hkey
      refine List.isEmpty_eq_false_iff_exists_mem.mpr ⟨group.getIndex key, ?_⟩
      rw [List.mem_filter, Bool.not_eq_true', ← Bool.not_eq_true, group.getIndex_isSome_iff]
      exact ⟨List.mem_map_of_mem hmem, hstranger⟩
    refine iff_of_false (fun h => ?_) fun h => hall h.2.1
    unfold participantIndices at h
    simp only [herrors] at h
    split at h
    · cases h
    · cases h

/-- What an offline player is started with: as many participants as it takes, members
of the keygen's list and this server among them; for each its index in the keygen, and
at this server's place its own. -/
structure SignsWithin (c : Coordinator C) (keys : List String) (t : UInt16) (req : SignRequest)
    (p : PlayerO C) : Prop where
  count : req.participantPublicKeys.length = t.toNat + 1
  members : ∀ key ∈ req.participantPublicKeys, key ∈ keys
  own : c.pkStr ∈ req.participantPublicKeys
  length : p.input.sL.length = req.participantPublicKeys.length
  places : ∀ (k : Nat) (key : String), req.participantPublicKeys[k]? = some key →
    ∃ i, p.input.sL[k]? = some i ∧ i.toNat = keys.idxOf key + 1 ∧
      ∀ (d : Coordinator C) keygen group j state, d.pkStr = key →
        keygen.participantPublicKeys = keys → d.BeginsKeygen keygen group j state → j = i
  ownPlace : 1 ≤ p.input.i.toNat ∧
    ∃ i, p.input.sL[p.input.i.toNat - 1]? = some i ∧ i.toNat = keys.idxOf c.pkStr + 1 ∧
      ∀ keygen group j state, keygen.participantPublicKeys = keys →
        c.BeginsKeygen keygen group j state → j = i

variable (C) in
/-- `OfflineStage::new` refuses a list that names a party twice. -/
def RefusesRepeats : Prop :=
  ∀ i sL key state, C.offlineStageNew i sL key = some state → sL.Nodup

section
variable {c : Coordinator C} {req : SignRequest} {ctx : Ctx}

/-- A sign request that starts a player begins its offline stage. -/
theorem begins_of_startO {a : Addr} {p : PlayerO C}
    (h : .startO a p ∈ ((handleSignRequest req ctx).run c).2.2) :
    ∃ share group subgroup sL i state, FindsGroups c req ctx share group subgroup ∧
      FindsParticipants req share group sL ∧ BeginsOffline share group subgroup sL i state ∧
      p = MpcPlayer.new (enrich req subgroup i sL) (enrich req subgroup i sL).room i state := by
  have hends : SignRequested c req ctx _ _ _ := handleSignRequest_cases req ctx c
  generalize ((handleSignRequest req ctx).run c).1 = r,
    ((handleSignRequest req ctx).run c).2.1 = c',
    ((handleSignRequest req ctx).run c).2.2 = os at h hends
  cases hends with
  | refused _ => simp at h
  | mismatched _ _ _ => simp at h
  | failed _ _ _ _ => simp at h
  | began hgroups _ hparts hbegins =>
      simp only [List.mem_cons, List.not_mem_nil, Effect.startO.injEq, reduceCtorEq, false_or,
        or_false] at h
      exact ⟨_, _, _, _, _, _, hgroups, hparts, hbegins, h.2⟩

/-- An offline stage that begins has its player started. -/
theorem startO_of_begins {share : StoredLocalShare C} {group subgroup : PublicKeyGroup}
    {sL : List UInt16} {i : UInt16} {state : C.OfflineStage}
    (hgroups : FindsGroups c req ctx share group subgroup)
    (hparts : FindsParticipants req share group sL)
    (hbegins : BeginsOffline share group subgroup sL i state) :
    ((handleSignRequest req ctx).run c).1 = .ok () ∧
      .startO ctx.freshO
          (MpcPlayer.new (enrich req subgroup i sL) (enrich req subgroup i sL).room i state) ∈
        ((handleSignRequest req ctx).run c).2.2 := by
  have hends : SignRequested c req ctx _ _ _ := handleSignRequest_cases req ctx c
  generalize ((handleSignRequest req ctx).run c).1 = r,
    ((handleSignRequest req ctx).run c).2.1 = c',
    ((handleSignRequest req ctx).run c).2.2 = os at hends ⊢
  -- each of the earlier ends denies what the hypotheses found
  cases hends with
  | refused hnone => exact absurd hgroups (hnone _ _ _)
  | mismatched hgroups' _ hnone =>
      obtain ⟨rfl, rfl, rfl⟩ := hgroups.unique hgroups'
      exact absurd hparts (hnone _)
  | failed hgroups' _ hparts' hnone =>
      obtain ⟨rfl, rfl, rfl⟩ := hgroups.unique hgroups'
      obtain rfl := hparts.unique hparts'
      exact absurd hbegins (hnone _ _)
  | began hgroups' _ hparts' hbegins' =>
      obtain ⟨rfl, rfl, rfl⟩ := hgroups.unique hgroups'
      obtain rfl := hparts.unique hparts'
      obtain ⟨-, hi, hstate⟩ := hbegins
      obtain ⟨-, hi', hstate'⟩ := hbegins'
      cases hi.symm.trans hi'
      cases hstate.symm.trans hstate'
      exact ⟨rfl, by simp⟩

variable {keygen : KeygenRequest} {key : C.LocalKey}

/-- The share a request finds is the one that was stored under its public key. -/
theorem share_of_retrieved (hstored : c.Retrievable ⟨keygen, key⟩)
    (hkey : req.publicKey = sumPk key) {share : StoredLocalShare C}
    (h : retrieveShare c.db c.sk ctx.toAmbient req.publicKey = .ok share) :
    share = c.shareOf ⟨keygen, key⟩ := by
  have hget : ctx.getOk = true := by
    simp only [retrieveShare, bind_eq_ok, Tree.get] at h
    obtain ⟨stored, hentry, -⟩ := h
    split at hentry
    · assumption
    · cases hentry
  have hfound := hstored ctx.toAmbient hget
  rw [← hkey, h] at hfound
  exact Except.ok.inj hfound

theorem signsWithin_of_begins (hshort : keygen.participantPublicKeys.length < 2 ^ 16)
    (hstored : c.Retrievable ⟨keygen, key⟩) (hkey : req.publicKey = sumPk key)
    {share : StoredLocalShare C} {group subgroup : PublicKeyGroup} {sL : List UInt16} {i : UInt16}
    {state : C.OfflineStage} (hgroups : FindsGroups c req ctx share group subgroup)
    (hparts : FindsParticipants req share group sL)
    (hbegins : BeginsOffline share group subgroup sL i state) :
    c.SignsWithin keygen.participantPublicKeys (C.threshold key) req
      (MpcPlayer.new (enrich req subgroup i sL) (enrich req subgroup i sL).room i state) := by
  obtain ⟨hshare, hgroup, hsubgroup⟩ := hgroups
  obtain rfl := share_of_retrieved hstored hkey hshare
  obtain ⟨gid, -, rfl⟩ := PublicKeyGroup.new_eq_ok.mp hgroup
  obtain ⟨subgid, -, rfl⟩ := PublicKeyGroup.new_eq_ok.mp hsubgroup
  obtain ⟨required, hrequired, hindices⟩ := hparts
  obtain ⟨hcount, hmembers, rfl⟩ := participantIndices_eq_ok.mp hindices
  obtain ⟨-, hi, -⟩ := hbegins
  obtain ⟨hown, rfl⟩ := PublicKeyGroup.getI_eq_ok.mp hi
  have hplace : req.participantPublicKeys.idxOf c.pkStr < req.participantPublicKeys.length :=
    List.idxOf_lt_length_of_mem hown
  -- some participant is required, so one more than the threshold did not wrap around
  have hfits : (C.threshold key).toNat + (1 : UInt16).toNat < 2 ^ 16 := by
    by_contra hover
    have hlt := (C.threshold key).toNat_lt
    have hmax : (C.threshold key).toNat = 2 ^ 16 - 1 := by
      have hone : (1 : UInt16).toNat = 1 := rfl
      omega
    unfold addU16 at hrequired
    split at hrequired
    · cases hrequired
    · cases hrequired
      rw [hcount, shareOf, UInt16.toNat_add, hmax] at hplace
      exact absurd hplace (Nat.not_lt_zero _)
  have hindex : (UInt16.ofNat (req.participantPublicKeys.idxOf c.pkStr + 1)).toNat =
      req.participantPublicKeys.idxOf c.pkStr + 1 := by
    have hbound := required.toNat_lt
    exact toNat_ofNat_eq_iff.mpr (by omega)
  -- each participant is found in the list of the keygen at the place it had there
  have hfind : ∀ (k : Nat) (pk : String), req.participantPublicKeys[k]? = some pk →
      ∃ i, (req.participantPublicKeys.map fun pk =>
          UInt16.ofNat (keygen.participantPublicKeys.idxOf pk + 1))[k]? = some i ∧
        i.toNat = keygen.participantPublicKeys.idxOf pk + 1 ∧
        ∀ (d : Coordinator C) keygen' group j state, d.pkStr = pk →
          keygen'.participantPublicKeys = keygen.participantPublicKeys →
          d.BeginsKeygen keygen' group j state → j = i := by
    intro k pk hk
    have hmember := List.idxOf_lt_length_of_mem (hmembers pk (List.mem_of_getElem? hk))
    refine ⟨_, by rw [List.getElem?_map, hk, Option.map_some],
      toNat_ofNat_eq_iff.mpr (Nat.lt_of_le_of_lt hmember hshort), ?_⟩
    rintro d keygen' group j state rfl hkeys hran
    rw [← hkeys]
    exact hran.index.2
  refine ⟨?_, hmembers, hown, List.length_map _, hfind, ?_⟩
  · rw [hcount, toNat_addU16 hrequired hfits]
    rfl
  · have hat : req.participantPublicKeys[req.participantPublicKeys.idxOf c.pkStr]? =
        some c.pkStr := List.getElem?_idxOf hown
    obtain ⟨j, hj, hnumber, hran⟩ := hfind _ _ hat
    -- the own place counted from one, less one
    show 1 ≤ (UInt16.ofNat _).toNat ∧ ∃ i, (List.map _ _)[(UInt16.ofNat _).toNat - 1]? = some i ∧ _
    rw [hindex, Nat.add_sub_cancel]
    exact ⟨by omega, j, hj, hnumber, fun keygen' group j' state hkeys hbegan =>
      hran c keygen' group j' state rfl hkeys hbegan⟩

/-- A request of as many members as it takes, this server among them, is accepted. -/
theorem accepts_of_participants (hrepeats : RefusesRepeats C) {group : PublicKeyGroup}
    (hgroup : PublicKeyGroup.new keygen.participantPublicKeys keygen.threshold.toUInt16 c.pkStr =
      .ok group) (hshort : keygen.participantPublicKeys.length < 2 ^ 16)
    (hstored : c.Retrievable ⟨keygen, key⟩) (hkey : req.publicKey = sumPk key)
    (hget : ctx.getOk = true)
    (hcount : req.participantPublicKeys.length = (C.threshold key).toNat + 1)
    (hmembers : ∀ pk ∈ req.participantPublicKeys, pk ∈ keygen.participantPublicKeys)
    (hown : c.pkStr ∈ req.participantPublicKeys) {state : C.OfflineStage}
    (hnew : C.offlineStageNew (UInt16.ofNat (req.participantPublicKeys.idxOf c.pkStr + 1))
      (req.participantPublicKeys.map fun pk =>
        UInt16.ofNat (keygen.participantPublicKeys.idxOf pk + 1)) key = some state) :
    ∃ p : PlayerO C, p.state = state ∧ ((handleSignRequest req ctx).run c).1 = .ok () ∧
      .startO ctx.freshO p ∈ ((handleSignRequest req ctx).run c).2.2 := by
  -- indices that do not repeat belong to keys that do not, so no more than there are members
  have hnodup : req.participantPublicKeys.Nodup := List.Nodup.of_map _ (hrepeats _ _ _ _ hnew)
  have hle := (hnodup.subperm hmembers).length_le
  have hsliceable : PublicKeyGroup.Sliceable keygen.participantPublicKeys := by
    rw [← PublicKeyGroup.new_isOk_iff, hgroup]
    rfl
  -- members of a sliceable list, so their own list has a group id too
  obtain ⟨subgid, hsubgid⟩ :
      ∃ gid, PublicKeyGroup.groupIdOf req.participantPublicKeys = .ok gid := by
    have hsub : PublicKeyGroup.Sliceable req.participantPublicKeys :=
      fun pk hpk => hsliceable pk (hmembers pk hpk)
    cases h : PublicKeyGroup.groupIdOf req.participantPublicKeys with
    | ok gid => exact ⟨gid, rfl⟩
    | error p =>
        rw [← PublicKeyGroup.groupIdOf_isOk_iff, h] at hsub
        cases hsub
  obtain ⟨gid, hgid, -⟩ := PublicKeyGroup.new_eq_ok.mp hgroup
  have hgroups : FindsGroups c req ctx (c.shareOf ⟨keygen, key⟩)
      ⟨gid, C.threshold key, keygen.participantPublicKeys, c.pkStr⟩
      ⟨subgid, C.threshold key, req.participantPublicKeys, c.pkStr⟩ :=
    ⟨hkey ▸ hstored ctx.toAmbient hget, PublicKeyGroup.new_eq_ok.mpr ⟨gid, hgid, rfl⟩,
      PublicKeyGroup.new_eq_ok.mpr ⟨subgid, hsubgid, rfl⟩⟩
  have hfits : (C.threshold key).toNat + (1 : UInt16).toNat < 2 ^ 16 := by
    have hone : (1 : UInt16).toNat = 1 := rfl
    omega
  have hrequired : addU16 C.overflowChecks (C.threshold key) 1 = .ok (C.threshold key + 1) :=
    if_neg fun h => absurd h.2 (by omega)
  have hparts : FindsParticipants req (c.shareOf ⟨keygen, key⟩)
      ⟨gid, C.threshold key, keygen.participantPublicKeys, c.pkStr⟩
      (req.participantPublicKeys.map fun pk =>
        UInt16.ofNat (keygen.participantPublicKeys.idxOf pk + 1)) := by
    refine ⟨C.threshold key + 1, hrequired, participantIndices_eq_ok.mpr ⟨?_, hmembers, rfl⟩⟩
    rw [hcount, toNat_addU16 hrequired hfits]
    rfl
  have hbegins : BeginsOffline (c.shareOf ⟨keygen, key⟩)
      ⟨gid, C.threshold key, keygen.participantPublicKeys, c.pkStr⟩
      ⟨subgid, C.threshold key, req.participantPublicKeys, c.pkStr⟩ _ _ state :=
    ⟨⟨_, PublicKeyGroup.getI_eq_ok.mpr ⟨hmembers _ hown, rfl⟩⟩,
      PublicKeyGroup.getI_eq_ok.mpr ⟨hown, rfl⟩, hnew⟩
  obtain ⟨hok, hstart⟩ := startO_of_begins hgroups hparts hbegins
  exact ⟨_, rfl, hok, hstart⟩

/-- **Signing with the shares of a keygen.** Let the store give back the share of a
keygen of fewer than `2 ^ 16` keys. A request for its public key that starts an offline
player names `t + 1` members, this server among them, and gives each the index its share
has. A request that names them so is accepted if `OfflineStage::new` accepts the indices. -/
theorem signsWithin_and_accepts (hrepeats : RefusesRepeats C) {group : PublicKeyGroup}
    (hgroup : PublicKeyGroup.new keygen.participantPublicKeys keygen.threshold.toUInt16 c.pkStr =
      .ok group) (hshort : keygen.participantPublicKeys.length < 2 ^ 16)
    (hstored : c.Retrievable ⟨keygen, key⟩) (hkey : req.publicKey = sumPk key) (ctx : Ctx) :
    (∀ a p, .startO a p ∈ ((handleSignRequest req ctx).run c).2.2 →
      c.SignsWithin keygen.participantPublicKeys (C.threshold key) req p) ∧
    (ctx.getOk = true →
      req.participantPublicKeys.length = (C.threshold key).toNat + 1 →
      (∀ pk ∈ req.participantPublicKeys, pk ∈ keygen.participantPublicKeys) →
      c.pkStr ∈ req.participantPublicKeys →
      ∀ state, C.offlineStageNew (UInt16.ofNat (req.participantPublicKeys.idxOf c.pkStr + 1))
          (req.participantPublicKeys.map fun pk =>
            UInt16.ofNat (keygen.participantPublicKeys.idxOf pk + 1)) key = some state →
        ∃ p : PlayerO C, p.state = state ∧ ((handleSignRequest req ctx).run c).1 = .ok () ∧
          .startO ctx.freshO p ∈ ((handleSignRequest req ctx).run c).2.2) := by
  refine ⟨fun a p h => ?_, fun hget hcount hmembers hown state hnew => ?_⟩
  · obtain ⟨share, group, subgroup, sL, i, state, hgroups, hparts, hbegins, rfl⟩ :=
      begins_of_startO h
    exact signsWithin_of_begins hshort hstored hkey hgroups hparts hbegins
  · exact accepts_of_participants hrepeats hgroup hshort hstored hkey hget hcount hmembers hown
      hnew

end

end Coordinator

namespace Sample

theorem refusesRepeats (sc : Scenario) : Coordinator.RefusesRepeats (crates sc) := by
  intro i sL key state h
  change offlineStageNew sc.offlineRounds i sL key = some state at h
  simp only [offlineStageNew] at h
  split at h
  · cases h
  · rename_i hok
    by_contra hrepeats
    exact hok (.inr (.inr (.inr (.inr hrepeats))))

/-- Bob's server with the share of his keygen with Alice. -/
def bobWithShare : Coordinator (crates keygen) := (bobsNode keygen shared).coordinator

theorem bobWithShare_retrieves :
    bobWithShare.Retrievable ⟨keygenOf "k1" [.alice, .bob] 1, (⟨1, 2, 7⟩ : LocalKey)⟩ := by
  rintro ⟨now, getOk, casOk, seed⟩ rfl
  rfl

/-- Alice and Bob sign, Bob at the second place of both lists. -/
theorem signsWithin_pair :
    ∃ p, .startO 0 p ∈ ((Coordinator.handleSignRequest (signOf "s1" [.alice, .bob] "0a")
        firstCtx).run bobWithShare).2.2 ∧
      bobWithShare.SignsWithin (keyTexts [.alice, .bob]) 1 (signOf "s1" [.alice, .bob] "0a") p := by
  have hgroup : PublicKeyGroup.new (keygenOf "k1" [.alice, .bob] 1).participantPublicKeys 1
      bobWithShare.pkStr = .ok pairsGroup := by decide
  have hkey : (signOf "s1" [.alice, .bob] "0a").publicKey =
      sumPk (C := crates keygen) (⟨1, 2, 7⟩ : LocalKey) := rfl
  obtain ⟨hwithin, haccepts⟩ := Coordinator.signsWithin_and_accepts (refusesRepeats keygen) hgroup
    (by decide) bobWithShare_retrieves hkey firstCtx
  obtain ⟨p, -, -, hstart⟩ := haccepts rfl rfl (fun _ h => h) (by decide) _ rfl
  exact ⟨p, hstart, hwithin 0 p hstart⟩

end Sample

end MpcServer

import MpcServer.Participants
import MpcServer.Server

/-!
# Requests that cannot be served

No check stands between a client and the two handlers of requests. What they can
make nothing of ends in a panic or in an `Err`; and an `Err` may come when the group
of the participants has been saved already.
-/

namespace MpcServer

open Rust Rust.Method

variable {C : Crates}

/-- One more than the largest number there is. -/
theorem addU16_one_eq_error {checks : Bool} {t : UInt16} {p : Panic} :
    addU16 checks t 1 = .error p ↔
      (checks = true ∧ t.toNat = 2 ^ 16 - 1) ∧ p = .arithmeticOverflow := by
  have hlt := t.toNat_lt
  have hone : (1 : UInt16).toNat = 1 := rfl
  unfold addU16
  split
  · rename_i hover
    have htop : t.toNat = 2 ^ 16 - 1 := by omega
    simp [hover.1, htop, eq_comm]
  · rename_i hfits
    refine iff_of_false (fun h => nomatch h) fun h => hfits ⟨h.1.1, ?_⟩
    omega

namespace Coordinator

/-- The call of a request's handler. -/
def handleRequest (ctx : Ctx) : Request → Call C String Unit
  | .keygen req => handleKeygenRequest req ctx
  | .sign req => handleSignRequest req ctx

theorem outcome_eq (c : Coordinator C) (ctx : Ctx) (req : Request) :
    c.outcome ctx req = ((handleRequest ctx req).run c).1 := by
  cases req <;> rfl

/-! ## Panics -/

/-- The request has what its handler takes for granted: keys that can be cut, this
server's key among them and, for a signature, a threshold with a successor. A sign
request whose share is not found, or whose participants are refused, is never asked for
the own key. -/
def Tolerates (c : Coordinator C) (ctx : Ctx) : Request → Prop
  | .keygen req =>
      PublicKeyGroup.Sliceable req.participantPublicKeys ∧ c.pkStr ∈ req.participantPublicKeys
  | .sign req =>
      match retrieveShare c.db c.sk ctx.toAmbient req.publicKey with
      | .error _ => True
      | .ok share =>
          PublicKeyGroup.Sliceable share.publicKeys ∧
          PublicKeyGroup.Sliceable req.participantPublicKeys ∧
          ¬ (C.overflowChecks = true ∧ (C.threshold share.share).toNat = 2 ^ 16 - 1) ∧
          (req.participantPublicKeys.length = (C.threshold share.share + 1).toNat →
            (∀ key ∈ req.participantPublicKeys, key ∈ share.publicKeys) →
              c.pkStr ∈ req.participantPublicKeys)

theorem not_sliceable_of_new {keys : List String} {t : UInt16} {own : String} {p : Panic}
    (h : PublicKeyGroup.new keys t own = .error p) : ¬ PublicKeyGroup.Sliceable keys := by
  rw [← PublicKeyGroup.new_isOk_iff, h]
  exact Bool.false_ne_true

theorem sliceable_of_new {keys : List String} {t : UInt16} {own : String} {g : PublicKeyGroup}
    (h : PublicKeyGroup.new keys t own = .ok g) : PublicKeyGroup.Sliceable keys := by
  rw [← PublicKeyGroup.new_isOk_iff, h]
  rfl

theorem not_listed_of_getI {group : PublicKeyGroup} {p : Panic} (h : group.getI = .error p) :
    group.ownPublicKey ∉ group.publicKeys := by
  intro hlisted
  have hok := PublicKeyGroup.getI_eq_ok.mpr ⟨hlisted, rfl⟩
  cases hok.symm.trans h

theorem iff_of_panic {q : Prop} (p : Panic) (hq : ¬ q) :
    isPanic (.error (.panic p) : Except (Stop String) Unit) = false ↔ q :=
  iff_of_false (fun h => nomatch h) hq

/-- Where the own key is missing from a list, it is not asked for in it, unless the list
is that of participants who were accepted. -/
theorem sign_returns_iff (c : Coordinator C) (ctx : Ctx) (req : SignRequest) :
    Ends (handleSignRequest req ctx) c fun r _ _ =>
      isPanic r = false ↔ c.Tolerates ctx (.sign req) := by
  -- from top to bottom; each fallible call ends the body or tells what the next may rely on
  unfold Tolerates
  refine .bind_ok (run_self c) ?_
  cases hshare : retrieveShare c.db c.sk ctx.toAmbient req.publicKey with
  | error e =>
      refine .bind_error (run_question_error _ c) ?_
      simp only [hshare]
      exact iff_of_true rfl trivial
  | ok share =>
      refine .bind_ok (run_question_ok share c) ?_
      simp only [hshare]
      cases hg : PublicKeyGroup.new share.publicKeys (C.threshold share.share) c.pkStr with
      | error p =>
          exact .bind_error (run_orPanic_error p c)
            (iff_of_panic p fun h => not_sliceable_of_new hg h.1)
      | ok group =>
          refine .bind_ok (run_orPanic_ok group c) ?_
          have hgroup := sliceable_of_new hg
          obtain ⟨gid, -, rfl⟩ := PublicKeyGroup.new_eq_ok.mp hg
          cases hs : PublicKeyGroup.new req.participantPublicKeys (C.threshold share.share)
              c.pkStr with
          | error p =>
              exact .bind_error (run_orPanic_error p c)
                (iff_of_panic p fun h => not_sliceable_of_new hs h.2.1)
          | ok subgroup =>
              have hsubgroup := sliceable_of_new hs
              obtain ⟨subgid, -, rfl⟩ := PublicKeyGroup.new_eq_ok.mp hs
              obtain ⟨db, written, hrun, -⟩ := storeGroup_run (ε := String) _ ctx c
              refine .bind_ok (run_orPanic_ok _ c) (.bind_ok hrun ?_)
              cases hreq : addU16 C.overflowChecks (C.threshold share.share) 1 with
              | error p =>
                  exact .bind_error (run_orPanic_error p _)
                    (iff_of_panic p fun h => h.2.2.1 (addU16_one_eq_error.mp hreq).1)
              | ok required =>
                  have hfits : ¬ (C.overflowChecks = true ∧
                      (C.threshold share.share).toNat = 2 ^ 16 - 1) :=
                    fun h => nomatch hreq.symm.trans (addU16_one_eq_error.mpr ⟨h, rfl⟩)
                  obtain rfl : required = C.threshold share.share + 1 := by
                    unfold addU16 at hreq
                    split at hreq
                    · cases hreq
                    · exact (Except.ok.inj hreq).symm
                  refine .bind_ok (run_orPanic_ok _ _) ?_
                  cases hsL : participantIndices ⟨gid, _, share.publicKeys, c.pkStr⟩
                      (C.threshold share.share + 1) req.participantPublicKeys with
                  | error e =>
                      refine .bind_error (run_question_error _ _) (iff_of_true rfl
                        ⟨hgroup, hsubgroup, hfits, fun hcount hmembers => ?_⟩)
                      exact nomatch hsL.symm.trans
                        (participantIndices_eq_ok.mpr ⟨hcount, hmembers, rfl⟩)
                  | ok sL =>
                      obtain ⟨hcount, hmembers, -⟩ := participantIndices_eq_ok.mp hsL
                      refine .bind_ok (run_question_ok sL _) (.bind_ok (run_emit _ _) ?_)
                      -- every participant is a member by now, so the server is one if it takes
                      -- part
                      cases hj : PublicKeyGroup.getI ⟨gid, C.threshold share.share,
                          share.publicKeys, c.pkStr⟩ with
                      | error p =>
                          refine .bind_error (run_orPanic_error p _) (iff_of_panic p fun h => ?_)
                          exact not_listed_of_getI hj
                            (hmembers _ (h.2.2.2 hcount hmembers))
                      | ok j =>
                          refine .bind_ok (run_orPanic_ok j _) ?_
                          cases hi : PublicKeyGroup.getI ⟨subgid, C.threshold share.share,
                              req.participantPublicKeys, c.pkStr⟩ with
                          | error p =>
                              refine .bind_error (run_orPanic_error p _) (iff_of_panic p fun h => ?_)
                              exact not_listed_of_getI hi (h.2.2.2 hcount hmembers)
                          | ok i =>
                              have hown := (PublicKeyGroup.getI_eq_ok.mp hi).1
                              refine .bind_ok (run_orPanic_ok i _) ?_
                              cases hnew : C.offlineStageNew i sL share.share with
                              | none =>
                                  exact .bind_error (run_question_error _ _)
                                    (iff_of_true rfl ⟨hgroup, hsubgroup, hfits, fun _ _ => hown⟩)
                              | some state =>
                                  exact .bind_ok (run_question_ok state _)
                                    (.bind_ok (run_emit _ _) (.of_run (run_modify _ _)
                                      (iff_of_true rfl
                                        ⟨hgroup, hsubgroup, hfits, fun _ _ => hown⟩)))

theorem keygen_returns_iff (c : Coordinator C) (ctx : Ctx) (req : KeygenRequest) :
    Ends (handleKeygenRequest req ctx) c fun r _ _ =>
      isPanic r = false ↔ c.Tolerates ctx (.keygen req) := by
  unfold Tolerates
  refine .bind_ok (run_emit _ c) (.bind_ok (run_self c) ?_)
  cases hg : PublicKeyGroup.new req.participantPublicKeys req.threshold.toUInt16 c.pkStr with
  | error p =>
      refine .bind_error (run_orPanic_error p c) ?_
      exact iff_of_panic p fun h => not_sliceable_of_new hg h.1
  | ok group =>
      have hsliceable := sliceable_of_new hg
      obtain ⟨gid, -, rfl⟩ := PublicKeyGroup.new_eq_ok.mp hg
      refine .bind_ok (run_orPanic_ok _ c) ?_
      cases hi : PublicKeyGroup.getI ⟨gid, _, _, c.pkStr⟩ with
      | error p =>
          refine .bind_error (run_orPanic_error p c) ?_
          exact iff_of_panic p fun h => not_listed_of_getI hi h.2
      | ok i =>
          have hlisted := (PublicKeyGroup.getI_eq_ok.mp hi).1
          refine .bind_ok (run_orPanic_ok i c) ?_
          cases hnew : C.keygenNew i (PublicKeyGroup.getT ⟨gid, _, _, c.pkStr⟩)
              (PublicKeyGroup.getN ⟨gid, _, _, c.pkStr⟩) with
          | none =>
              refine .bind_error (run_question_error _ c) ?_
              exact iff_of_true rfl ⟨hsliceable, hlisted⟩
          | some state =>
              obtain ⟨db, written, hrun, -⟩ := storeGroup_run (ε := String) _ ctx c
              refine .bind_ok (run_question_ok state c) (.bind_ok (run_emit _ c) ?_)
              exact .bind_ok hrun (.of_run (run_modify _ _) (iff_of_true rfl ⟨hsliceable, hlisted⟩))

/-- **Which requests a handler returns from.** It panics unless the request has what it
takes for granted. -/
theorem returns_iff (c : Coordinator C) (ctx : Ctx) (req : Request) :
    isPanic (c.outcome ctx req) = false ↔ c.Tolerates ctx req := by
  rw [outcome_eq]
  cases req with
  | keygen req => exact keygen_returns_iff c ctx req
  | sign req => exact sign_returns_iff c ctx req

end Coordinator

namespace Sample

/-- A client can bring the server of Bob down: any text is admitted as a key. -/
theorem panics_on_shortKey :
    Server.refusal (Server.init (C := crates keygen) nothing) true
        (.keygen ⟨"k1", ["abc"], 1⟩) = none ∧
      isPanic (bobsCoordinator.outcome firstCtx (.keygen ⟨"k1", ["abc"], 1⟩)) = true := by
  exact ⟨by decide, by decide +kernel⟩

end Sample

namespace Coordinator

/-! ## What an `Err` leaves behind -/

/-- The group a sign request has saved when the checks of its participants begin. -/
def groupToSave (c : Coordinator C) (ctx : Ctx) (req : SignRequest) : Option PublicKeyGroup :=
  match retrieveShare c.db c.sk ctx.toAmbient req.publicKey with
  | .error _ => none
  | .ok share =>
      match PublicKeyGroup.new share.publicKeys (C.threshold share.share) c.pkStr with
      | .error _ => none
      | .ok _ =>
          (PublicKeyGroup.new req.participantPublicKeys (C.threshold share.share) c.pkStr).toOption

theorem groupToSave_eq_some {c : Coordinator C} {ctx : Ctx} {req : SignRequest}
    {subgroup : PublicKeyGroup} :
    c.groupToSave ctx req = some subgroup ↔
      ∃ share group, FindsGroups c req ctx share group subgroup := by
  unfold groupToSave FindsGroups
  cases retrieveShare c.db c.sk ctx.toAmbient req.publicKey with
  | error e => simp
  | ok share =>
      dsimp only
      cases hg : PublicKeyGroup.new share.publicKeys (C.threshold share.share) c.pkStr with
      | error p => simp [hg]
      | ok group =>
          cases hs : PublicKeyGroup.new req.participantPublicKeys (C.threshold share.share)
              c.pkStr with
          | error p => simp [hg, hs, Except.toOption]
          | ok g => simp [hg, hs, Except.toOption]

/-- The handler has no group to save, or the store has an entry under its id, or the
database does not take it. A keygen request saves nothing before it is accepted. -/
def WritesNothing (c : Coordinator C) (ctx : Ctx) : Request → Prop
  | .keygen _ => True
  | .sign req => ∀ group ∈ c.groupToSave ctx req,
      (c.db group.groupId).isSome ∨ C.publicKeyGroup.write group = none ∨ ctx.casOk = false

theorem Stores.eq_self_iff {db db' : Tree C} {ctx : Ctx} {group : PublicKeyGroup} {written : Bool}
    (h : Stores db ctx group db' written) :
    db' = db ↔
      (db group.groupId).isSome ∨ C.publicKeyGroup.write group = none ∨ ctx.casOk = false := by
  cases h with
  | written hwrite hcas =>
      rw [FirstWrite.put_eq_self_iff]
      simp [hwrite, hcas]
  | lost hlost => exact iff_of_true rfl (.inr hlost)

/-- A sign request that finds its groups saves one of them, refused or not. -/
theorem saved_eq_self_iff {c : Coordinator C} {ctx : Ctx} {req : SignRequest}
    {share : StoredLocalShare C} {group subgroup : PublicKeyGroup} {db : Tree C} {written : Bool}
    (hgroups : FindsGroups c req ctx share group subgroup)
    (hstores : Stores c.db ctx subgroup db written) :
    { c with db } = c ↔ c.WritesNothing ctx (.sign req) := by
  have hdb : { c with db } = c ↔ db = c.db :=
    ⟨fun h => congrArg Coordinator.db h, fun h => by rw [h]⟩
  rw [hdb, hstores.eq_self_iff]
  constructor
  · intro hkept subgroup' hsave
    obtain ⟨share', group', hgroups'⟩ := groupToSave_eq_some.mp hsave
    obtain ⟨-, -, rfl⟩ := hgroups.unique hgroups'
    exact hkept
  · intro hnothing
    exact hnothing subgroup (groupToSave_eq_some.mpr ⟨share, group, hgroups⟩)

/-- **When a refused request leaves nothing behind.** A handler that returns `Err` has
changed neither the tree nor the maps of the runners exactly if it had no group to save:
where a sign request is refused after that, the group of its participants stays. -/
theorem unchanged_iff {c : Coordinator C} {ctx : Ctx} {req : Request} {e : String}
    (h : c.outcome ctx req = .error (.err e)) :
    ((handleRequest ctx req).run c).2.1 = c ↔ c.WritesNothing ctx req := by
  rw [outcome_eq] at h
  cases req with
  | keygen req =>
      have hends : KeygenRequested c req ctx _ _ _ := handleKeygenRequest_cases req ctx c
      change ((handleKeygenRequest req ctx).run c).1 = _ at h
      change ((handleKeygenRequest req ctx).run c).2.1 = c ↔ _
      generalize ((handleKeygenRequest req ctx).run c).1 = r,
        ((handleKeygenRequest req ctx).run c).2.1 = c',
        ((handleKeygenRequest req ctx).run c).2.2 = os at h hends ⊢
      cases hends with
      | refused _ => exact iff_of_true rfl trivial
      | began _ _ => cases h
  | sign req =>
      have hends : SignRequested c req ctx _ _ _ := handleSignRequest_cases req ctx c
      change ((handleSignRequest req ctx).run c).1 = _ at h
      change ((handleSignRequest req ctx).run c).2.1 = c ↔ _
      generalize ((handleSignRequest req ctx).run c).1 = r,
        ((handleSignRequest req ctx).run c).2.1 = c',
        ((handleSignRequest req ctx).run c).2.2 = os at h hends ⊢
      cases hends with
      | refused hnone =>
          refine iff_of_true rfl fun subgroup hsave => ?_
          obtain ⟨share, group, hgroups⟩ := groupToSave_eq_some.mp hsave
          exact absurd hgroups (hnone _ _ _)
      | mismatched hgroups hstores _ => exact saved_eq_self_iff hgroups hstores
      | failed hgroups hstores _ _ => exact saved_eq_self_iff hgroups hstores
      | began _ _ _ _ => cases h

end Coordinator

namespace Sample

/-- Alice alone is too few: two must sign. -/
def aliceSigns : Request := .sign (signOf "s1" [.alice] "0a")

theorem aliceSigns_refused : bobWithShare.outcome firstCtx aliceSigns =
    .error (.err "Find index of participants") := by
  decide

/-- The group "73ee5cd6" of Alice alone, without Bob, is left in the tree of Bob. -/
theorem changed_of_aliceSigns :
    Server.refusal (Server.init (C := crates keygen) nothing) true aliceSigns = none ∧
      bobWithShare.outcome firstCtx aliceSigns = .error (.err "Find index of participants") ∧
      ((Coordinator.handleRequest firstCtx aliceSigns).run bobWithShare).2.1 ≠ bobWithShare := by
  refine ⟨by decide, aliceSigns_refused, fun h => ?_⟩
  have hentry : (((Coordinator.handleRequest firstCtx aliceSigns).run bobWithShare).2.1.db
      "73ee5cd6").isSome = true := by decide
  rw [h] at hentry
  exact absurd hentry (by decide)

/-- What the refusal has left of Bob's coordinator. -/
def bobAfterRefusal : Coordinator (crates keygen) :=
  ((Coordinator.handleRequest firstCtx aliceSigns).run bobWithShare).2.1

/-- Refused once more, the request finds its group in the tree and changes nothing. -/
theorem unchanged_of_aliceSignsAgain :
    bobAfterRefusal.outcome firstCtx aliceSigns = .error (.err "Find index of participants") ∧
      (bobAfterRefusal.groupToSave firstCtx (signOf "s1" [.alice] "0a")).isSome = true ∧
      ((Coordinator.handleRequest firstCtx aliceSigns).run bobAfterRefusal).2.1 =
        bobAfterRefusal := by
  have hrefused : bobAfterRefusal.outcome firstCtx aliceSigns =
      .error (.err "Find index of participants") := by decide
  have hsaves : (bobAfterRefusal.groupToSave firstCtx (signOf "s1" [.alice] "0a")).isSome =
      true := by decide
  refine ⟨hrefused, hsaves, (Coordinator.unchanged_iff hrefused).mpr fun group hsave => .inl ?_⟩
  have hstored : ∀ group ∈ bobAfterRefusal.groupToSave firstCtx (signOf "s1" [.alice] "0a"),
      (bobAfterRefusal.db group.groupId).isSome = true := by decide
  exact hstored group hsave

end Sample

end MpcServer

import MpcServer.Actors.Coordinator

/-!
# How sessions begin and end

The handlers that change the coordinator: the two requests, which save a group
and register a player, and the outputs of the runners. For each of them, every
way its call can end, with what it leaves and what the outside sees.
-/

namespace MpcServer

open Rust Rust.Method

variable {C : Crates}

/-- The status that is sent when a request is taken up. -/
def processing (requestId : String) (requestType : RequestType) : CheckResultResponse :=
  { requestId, result := "", requestType, requestStatus := .processing }

namespace Coordinator

/-! ## Saving a group -/

/-- `save_group` with its result dropped. -/
inductive Stores (db : Tree C) (ctx : Ctx) (group : PublicKeyGroup) : Tree C → Bool → Prop
  | written {value} : C.publicKeyGroup.write group = some value → ctx.casOk = true →
      Stores db ctx group (FirstWrite.put db group.groupId value) true
  | lost : (C.publicKeyGroup.write group = none ∨ ctx.casOk = false) →
      Stores db ctx group db false

theorem storeGroup_run {ε : Type} (group : PublicKeyGroup) (ctx : Ctx) (c : Coordinator C) :
    ∃ db written, (storeGroup group ctx : Call C ε Unit).run c =
      (.ok (), { c with db }, [.savedGroup group written]) ∧ Stores c.db ctx group db written := by
  unfold storeGroup saveGroup Tree.compareAndSwap
  simp only [run_bind, run_self]
  cases hw : C.publicKeyGroup.write group with
  | none => exact ⟨_, _, rfl, .lost (.inl hw)⟩
  | some value =>
      cases hcas : ctx.casOk with
      | false => exact ⟨c.db, false, by simp [bind, Except.bind], .lost (.inr hcas)⟩
      | true => exact ⟨_, true, by simp [bind, Except.bind], .written hw hcas⟩

theorem Stores.keeps {db db' : Tree C} {ctx : Ctx} {group : PublicKeyGroup} {written : Bool}
    (h : Stores db ctx group db' written) : FirstWrite.Keeps db db' := by
  cases h with
  | written _ _ => exact FirstWrite.keeps_put _ _ _
  | lost _ => exact FirstWrite.Keeps.refl _

/-! ## Keygen requests -/

/-- The keygen session a request begins: its group, the party index of this
server in it, the state machine. -/
def BeginsKeygen (c : Coordinator C) (req : KeygenRequest) (group : PublicKeyGroup) (i : UInt16)
    (state : C.Keygen) : Prop :=
  PublicKeyGroup.new req.participantPublicKeys req.threshold.toUInt16 c.pkStr = .ok group ∧
    group.getI = .ok i ∧ C.keygenNew i group.getT group.getN = some state

/-- What a keygen request does. -/
inductive KeygenRequested (c : Coordinator C) (req : KeygenRequest) (ctx : Ctx) :
    Except (Stop String) Unit → Coordinator C → List (Effect C) → Prop
  | refused {stop} : (∀ group i state, ¬ BeginsKeygen c req group i state) →
      KeygenRequested c req ctx (.error stop) c [.status (processing req.requestId .keygen)]
  | began {group i state db written} : BeginsKeygen c req group i state →
      Stores c.db ctx group db written →
      KeygenRequested c req ctx (.ok ())
        { c with
          db
          keygenRunners := Function.update c.keygenRunners
            (makeRoomId req.requestId group.groupId) (some ctx.freshKG) }
        [.status (processing req.requestId .keygen),
          .startKG ctx.freshKG
            (MpcPlayer.new req (makeRoomId req.requestId group.groupId) i state),
          .savedGroup group written]

theorem handleKeygenRequest_cases (req : KeygenRequest) (ctx : Ctx) (c : Coordinator C) :
    Ends (handleKeygenRequest req ctx) c (KeygenRequested c req ctx) := by
  refine .bind_ok (run_emit _ c) (.bind_ok (run_self c) ?_)
  cases hg : PublicKeyGroup.new req.participantPublicKeys req.threshold.toUInt16 c.pkStr with
  | error p =>
      refine .bind_error (run_orPanic_error p c) (.refused fun _ _ _ h => ?_)
      cases hg.symm.trans h.1
  | ok group =>
      refine .bind_ok (run_orPanic_ok group c) ?_
      cases hi : group.getI with
      | error p =>
          refine .bind_error (run_orPanic_error p c) (.refused fun _ _ _ h => ?_)
          cases hg.symm.trans h.1
          cases hi.symm.trans h.2.1
      | ok i =>
          refine .bind_ok (run_orPanic_ok i c) ?_
          cases hnew : C.keygenNew i group.getT group.getN with
          | none =>
              refine .bind_error (run_question_error _ c) (.refused fun _ _ _ h => ?_)
              cases hg.symm.trans h.1
              cases hi.symm.trans h.2.1
              cases hnew.symm.trans h.2.2
          | some state =>
              obtain ⟨db, written, hrun, hstores⟩ := storeGroup_run (ε := String) group ctx c
              refine .bind_ok (run_question_ok state c) (.bind_ok (run_emit _ c) ?_)
              exact .bind_ok hrun (.of_run (run_modify _ _) (.began ⟨hg, hi, hnew⟩ hstores))

/-! ## Sign requests -/

/-- The stored share a sign request names, the group it was generated in and
the group of the participants. -/
def FindsGroups (c : Coordinator C) (req : SignRequest) (ctx : Ctx) (share : StoredLocalShare C)
    (group subgroup : PublicKeyGroup) : Prop :=
  retrieveShare c.db c.sk ctx.toAmbient req.publicKey = .ok share ∧
    PublicKeyGroup.new share.publicKeys (C.threshold share.share) c.pkStr = .ok group ∧
    PublicKeyGroup.new req.participantPublicKeys (C.threshold share.share) c.pkStr = .ok subgroup

/-- There are as many participants as it takes, all from the keygen group. -/
def FindsParticipants (req : SignRequest) (share : StoredLocalShare C) (group : PublicKeyGroup)
    (sL : List UInt16) : Prop :=
  ∃ required, addU16 C.overflowChecks (C.threshold share.share) 1 = .ok required ∧
    participantIndices group required req.participantPublicKeys = .ok sL

/-- This server is among them, and the offline stage accepts their indices. -/
def BeginsOffline (share : StoredLocalShare C) (group subgroup : PublicKeyGroup)
    (sL : List UInt16) (i : UInt16) (state : C.OfflineStage) : Prop :=
  (∃ j, group.getI = .ok j) ∧ subgroup.getI = .ok i ∧
    C.offlineStageNew i sL share.share = some state

/-- The request with its room, the own index and the places of the signers in the old group. -/
def enrich (req : SignRequest) (subgroup : PublicKeyGroup) (i : UInt16) (sL : List UInt16) :
    EnrichedSignRequest :=
  { inner := req, room := req.requestId ++ "@" ++ subgroup.groupId, i, sL }

/-- A sign request finds one share and its groups. -/
theorem FindsGroups.unique {c : Coordinator C} {req : SignRequest} {ctx : Ctx}
    {share share' : StoredLocalShare C} {group group' subgroup subgroup' : PublicKeyGroup}
    (h : FindsGroups c req ctx share group subgroup)
    (h' : FindsGroups c req ctx share' group' subgroup') :
    share' = share ∧ group' = group ∧ subgroup' = subgroup := by
  obtain ⟨hshare, hgroup, hsubgroup⟩ := h
  obtain ⟨hshare', hgroup', hsubgroup'⟩ := h'
  cases hshare.symm.trans hshare'
  cases hgroup.symm.trans hgroup'
  cases hsubgroup.symm.trans hsubgroup'
  exact ⟨rfl, rfl, rfl⟩

theorem FindsParticipants.unique {req : SignRequest} {share : StoredLocalShare C}
    {group : PublicKeyGroup} {sL sL' : List UInt16} (h : FindsParticipants req share group sL)
    (h' : FindsParticipants req share group sL') : sL' = sL := by
  obtain ⟨required, hadd, hindices⟩ := h
  obtain ⟨required', hadd', hindices'⟩ := h'
  cases hadd.symm.trans hadd'
  cases hindices.symm.trans hindices'
  rfl

/-- What a sign request does. -/
inductive SignRequested (c : Coordinator C) (req : SignRequest) (ctx : Ctx) :
    Except (Stop String) Unit → Coordinator C → List (Effect C) → Prop
  | refused {stop} : (∀ share group subgroup, ¬ FindsGroups c req ctx share group subgroup) →
      SignRequested c req ctx (.error stop) c []
  | mismatched {stop share group subgroup db written} :
      FindsGroups c req ctx share group subgroup → Stores c.db ctx subgroup db written →
      (∀ sL, ¬ FindsParticipants req share group sL) →
      SignRequested c req ctx (.error stop) { c with db } [.savedGroup subgroup written]
  | failed {stop share group subgroup db written sL} :
      FindsGroups c req ctx share group subgroup → Stores c.db ctx subgroup db written →
      FindsParticipants req share group sL →
      (∀ i state, ¬ BeginsOffline share group subgroup sL i state) →
      SignRequested c req ctx (.error stop) { c with db }
        [.savedGroup subgroup written, .status (processing req.requestId .sign)]
  | began {share group subgroup db written sL i state} :
      FindsGroups c req ctx share group subgroup → Stores c.db ctx subgroup db written →
      FindsParticipants req share group sL → BeginsOffline share group subgroup sL i state →
      SignRequested c req ctx (.ok ())
        { c with
          db
          offlineStateRunners := Function.update c.offlineStateRunners
            (enrich req subgroup i sL).room (some ctx.freshO) }
        [.savedGroup subgroup written, .status (processing req.requestId .sign),
          .startO ctx.freshO
            (MpcPlayer.new (enrich req subgroup i sL) (enrich req subgroup i sL).room i state)]

theorem handleSignRequest_cases (req : SignRequest) (ctx : Ctx) (c : Coordinator C) :
    Ends (handleSignRequest req ctx) c (SignRequested c req ctx) := by
  refine .bind_ok (run_self c) ?_
  cases hshare : retrieveShare c.db c.sk ctx.toAmbient req.publicKey with
  | error e =>
      refine .bind_error (run_question_error _ c) (.refused fun _ _ _ h => ?_)
      cases hshare.symm.trans h.1
  | ok share =>
      refine .bind_ok (run_question_ok share c) ?_
      cases hg : PublicKeyGroup.new share.publicKeys (C.threshold share.share) c.pkStr with
      | error p =>
          refine .bind_error (run_orPanic_of_error hg c) (.refused fun _ _ _ h => ?_)
          cases hshare.symm.trans h.1
          cases hg.symm.trans h.2.1
      | ok group =>
          refine .bind_ok (run_orPanic_of_ok hg c) ?_
          cases hs : PublicKeyGroup.new req.participantPublicKeys (C.threshold share.share)
              c.pkStr with
          | error p =>
              refine .bind_error (run_orPanic_error p c) (.refused fun _ _ _ h => ?_)
              cases hshare.symm.trans h.1
              cases hs.symm.trans h.2.2
          | ok subgroup =>
              obtain ⟨db, written, hrun, hstores⟩ := storeGroup_run (ε := String) subgroup ctx c
              refine .bind_ok (run_orPanic_ok subgroup c) (.bind_ok hrun ?_)
              -- the subgroup is saved before anything more is asked of the request
              have hfind : FindsGroups c req ctx share group subgroup := ⟨hshare, hg, hs⟩
              cases hreq : addU16 C.overflowChecks (C.threshold share.share) 1 with
              | error p =>
                  refine .bind_error (run_orPanic_error p _) (.mismatched hfind hstores ?_)
                  rintro sL ⟨required, h, -⟩
                  cases hreq.symm.trans h
              | ok required =>
                  refine .bind_ok (run_orPanic_ok required _) ?_
                  cases hsL : participantIndices group required req.participantPublicKeys with
                  | error e =>
                      refine .bind_error (run_question_error _ _)
                        (.mismatched hfind hstores ?_)
                      rintro sL ⟨required', h, h'⟩
                      cases hreq.symm.trans h
                      cases hsL.symm.trans h'
                  | ok sL =>
                      refine .bind_ok (run_question_ok sL _) (.bind_ok (run_emit _ _) ?_)
                      have hpart : FindsParticipants req share group sL := ⟨required, hreq, hsL⟩
                      cases hj : group.getI with
                      | error p =>
                          refine .bind_error (run_orPanic_error p _)
                            (.failed hfind hstores hpart ?_)
                          rintro i state ⟨⟨j, h⟩, -⟩
                          cases hj.symm.trans h
                      | ok j =>
                          refine .bind_ok (run_orPanic_ok j _) ?_
                          cases hi : subgroup.getI with
                          | error p =>
                              refine .bind_error (run_orPanic_error p _)
                                (.failed hfind hstores hpart ?_)
                              rintro i state ⟨-, h, -⟩
                              cases hi.symm.trans h
                          | ok i =>
                              refine .bind_ok (run_orPanic_ok i _) ?_
                              cases hnew : C.offlineStageNew i sL share.share with
                              | none =>
                                  refine .bind_error (run_question_error _ _)
                                    (.failed hfind hstores hpart ?_)
                                  rintro i' state ⟨-, h, h'⟩
                                  cases hi.symm.trans h
                                  cases hnew.symm.trans h'
                              | some state =>
                                  refine .bind_ok (run_question_ok state _)
                                    (.bind_ok (run_emit _ _) (.of_run (run_modify _ _) ?_))
                                  exact .began hfind hstores hpart ⟨⟨j, hj⟩, hi, hnew⟩

/-! ## Outgoing messages -/

theorem handleOutgoing_run (msg : CoreMessage) (ctx : Ctx) (c : Coordinator C) :
    ∃ os, (handleOutgoing msg ctx).run c = (.ok (), c, os) ∧ ∀ o ∈ os, ∃ m, o = .send m := by
  unfold handleOutgoing
  simp only [run_bind, run_self]
  cases maybeEncrypt c.db ctx.toAmbient msg with
  | ok m => exact ⟨_, rfl, by simp⟩
  | error e => exact ⟨_, rfl, by simp⟩

/-! ## Outputs -/

/-- The share a keygen output brings, as it is to be stored. -/
def shareOf (c : Coordinator C) (msg : ProtocolOutput KeygenRequest C.LocalKey) :
    StoredLocalShare C :=
  { publicKeys := msg.input.participantPublicKeys, ownPublicKey := c.pkStr, share := msg.output }

/-- The tree after the attempt to save that share, whatever came of it. -/
def dbAfterOutputKG (c : Coordinator C) (msg : ProtocolOutput KeygenRequest C.LocalKey)
    (ctx : Ctx) : Tree C :=
  match saveShare c.db ctx.toAmbient (c.shareOf msg) with
  | .ok db => db
  | .error _ => c.db

/-- The final status of a keygen. -/
def keygenDone (msg : ProtocolOutput KeygenRequest C.LocalKey) : CheckResultResponse :=
  { requestId := msg.input.requestId, result := sumPk msg.output, requestType := .keygen,
    requestStatus := .done }

/-- What can become of a key. -/
inductive KeygenOutput (c : Coordinator C) (msg : ProtocolOutput KeygenRequest C.LocalKey)
    (ctx : Ctx) : Except (Stop String) Unit → Coordinator C → List (Effect C) → Prop
  | panicked {p} :
      PublicKeyGroup.new msg.input.participantPublicKeys msg.input.threshold.toUInt16 c.pkStr =
        .error p →
      KeygenOutput c msg ctx (.error (.panic p)) c []
  | done {group} :
      PublicKeyGroup.new msg.input.participantPublicKeys msg.input.threshold.toUInt16 c.pkStr =
        .ok group →
      KeygenOutput c msg ctx (.ok ())
        { c with
          db := c.dbAfterOutputKG msg ctx
          offlineStateRunners := Function.update c.offlineStateRunners
            (makeRoomId msg.input.requestId group.groupId) none }
        [.status (keygenDone msg)]

theorem handleProtocolOutputKG_cases (msg : ProtocolOutput KeygenRequest C.LocalKey) (ctx : Ctx)
    (c : Coordinator C) :
    Ends (handleProtocolOutputKG msg ctx) c (KeygenOutput c msg ctx) := by
  refine .bind_ok (run_self c) ?_
  cases hg : PublicKeyGroup.new msg.input.participantPublicKeys
      msg.input.threshold.toUInt16 c.pkStr with
  | error p => exact .bind_error (run_orPanic_error p c) (.panicked hg)
  | ok group =>
      refine .bind_ok (run_orPanic_ok group c) (.bind_ok (run_modify _ c) ?_)
      have hdone : KeygenOutput c msg ctx _ _ _ := .done hg
      unfold dbAfterOutputKG shareOf at hdone
      dsimp only
      cases hsave : saveShare c.db ctx.toAmbient
          { publicKeys := msg.input.participantPublicKeys, ownPublicKey := c.pkStr,
            share := msg.output } with
      | ok db =>
          rw [hsave] at hdone
          exact .bind_ok (run_modify _ _) (.of_run (run_emit _ _) hdone)
      | error e =>
          rw [hsave] at hdone
          exact .bind_ok (run_pure _ _) (.of_run (run_emit _ _) hdone)

/-- The signer that takes over when the offline stage is done. -/
def signerOf (msg : ProtocolOutput EnrichedSignRequest C.CompletedOfflineStage)
    (message : C.BigInt) : Signer C :=
  Signer.new msg.input
    { room := msg.input.room, index := msg.input.i, t := msg.input.sL.length - 1, message,
      completedOfflineStage := msg.output }

/-- What can become of an offline stage. -/
inductive OfflineOutput (c : Coordinator C)
    (msg : ProtocolOutput EnrichedSignRequest C.CompletedOfflineStage) (ctx : Ctx) :
    Except (Stop String) Unit → Coordinator C → List (Effect C) → Prop
  | signing {message} : C.bigIntFromHex msg.input.inner.hash = some message →
      OfflineOutput c msg ctx (.ok ())
        { c with
          offlineStateRunners := Function.update c.offlineStateRunners msg.input.room none
          signers := Function.update c.signers msg.input.room (some ctx.freshS) }
        [.startS ctx.freshS (signerOf msg message),
          .status (processing msg.input.inner.requestId .sign)]
  | badHash : C.bigIntFromHex msg.input.inner.hash = none →
      OfflineOutput c msg ctx (.ok ())
        { c with
          offlineStateRunners := Function.update c.offlineStateRunners msg.input.room none }
        [.status { requestId := msg.input.inner.requestId, result := "", requestType := .sign,
                   requestStatus := .error }]

theorem handleProtocolOutputO_cases
    (msg : ProtocolOutput EnrichedSignRequest C.CompletedOfflineStage) (ctx : Ctx)
    (c : Coordinator C) :
    Ends (handleProtocolOutputO msg ctx) c (OfflineOutput c msg ctx) := by
  refine .bind_ok (run_modify _ c) ?_
  cases hhash : C.bigIntFromHex msg.input.inner.hash with
  | none => exact .of_run (run_emit _ _) (.badHash hhash)
  | some message =>
      refine .bind_ok (run_emit _ _) (.bind_ok (run_modify _ _) (.of_run (run_emit _ _) ?_))
      exact .signing hhash

/-- The final status of a signing. -/
def signDone (msg : ProtocolOutput EnrichedSignRequest C.SignatureRecid) : CheckResultResponse :=
  { requestId := msg.input.inner.requestId
    result := "0x" ++ C.hexEncode (C.signatureBytes msg.output).1 ++
      C.hexEncode (C.signatureBytes msg.output).2.1 ++
      C.hexEncode (C.signatureBytes msg.output).2.2
    requestType := .sign
    requestStatus := .done }

theorem handleProtocolOutputS_run (msg : ProtocolOutput EnrichedSignRequest C.SignatureRecid)
    (c : Coordinator C) :
    (handleProtocolOutputS msg).run c = (.ok (), c, [.status (signDone msg)]) := rfl

end Coordinator

end MpcServer

import MpcServer.Actors.Identities
import MpcServer.Sample

/-!
# The share behind a finished key

A keygen is reported done whatever came of saving its share: a database that
fails, a share that does not encrypt and an entry that is there already all
pass unnoticed. Where the share is written, it can be retrieved ever after.
-/

namespace MpcServer

open Rust Rust.Method Machine

variable {C : Crates}

/-! ## Writing a share and reading it back -/

variable (C) in
/-- What the stores rely on: the encodings can be read back, and a holder of a
secret key decrypts what was encrypted to it. -/
structure StorageLaws : Prop where
  hexDecode : ∀ bytes, C.hexDecode (C.hexEncode bytes) = some bytes
  parsePublicKey : ∀ pk, C.parsePublicKey (C.serializeCompressed pk) = some pk
  decrypt : ∀ sk seed bytes ciphertext,
    C.encrypt (C.publicKeyOf sk) seed bytes = some ciphertext →
      C.decrypt sk ciphertext = some bytes
  localKey : ∀ key bytes, C.localKey.write key = some bytes → C.localKey.read bytes = some key
  encryptedStoredLocalShare : ∀ share blob,
    C.encryptedStoredLocalShare.write share = some blob →
      C.encryptedStoredLocalShare.read blob = some share

/-- The holder of a share's own key decrypts it. -/
theorem decrypt_of_own (laws : StorageLaws C) {sk : C.SecretKey} {s : StoredLocalShare C}
    (hown : s.getOwnPublicKey = .ok (C.publicKeyOf sk)) {seed : Nat}
    {stored : EncryptedStoredLocalShare} (h : s.encrypt seed = .ok stored) :
    stored.decrypt sk = .ok s := by
  simp only [StoredLocalShare.encrypt, hown, withContext_ok, bind_eq_ok, Except.ok.injEq,
    exists_eq_left', context_eq_ok] at h
  obtain ⟨shareBytes, hshare, ciphertext, hcipher, h⟩ := h
  cases h
  simp [EncryptedStoredLocalShare.decrypt, laws.hexDecode, laws.decrypt _ _ _ _ hcipher,
    laws.localKey _ _ hshare, bind, Except.bind, pure, Except.pure]

theorem getOwnPublicKey_of_own (laws : StorageLaws C) {sk : C.SecretKey}
    {s : StoredLocalShare C} (hown : s.ownPublicKey = C.ownKey sk) :
    s.getOwnPublicKey = .ok (C.publicKeyOf sk) := by
  rw [StoredLocalShare.getOwnPublicKey, hown, Crates.ownKey, laws.hexDecode]
  simp [laws.parsePublicKey, bind, Except.bind]

/-- A server decrypts what it encrypted to itself. -/
theorem decrypt_encrypt (laws : StorageLaws C) {sk : C.SecretKey} {s : StoredLocalShare C}
    (hown : s.ownPublicKey = C.ownKey sk) {seed : Nat} {stored : EncryptedStoredLocalShare}
    (h : s.encrypt seed = .ok stored) : stored.decrypt sk = .ok s :=
  decrypt_of_own laws (getOwnPublicKey_of_own laws hown) h

namespace Coordinator

/-- The share can be retrieved under its public key. -/
def Retrievable (c : Coordinator C) (out : ProtocolOutput KeygenRequest C.LocalKey) : Prop :=
  ∀ amb, amb.getOk = true →
    retrieveShare c.db c.sk amb (sumPk out.output) = .ok (c.shareOf out)

/-- The database carries the save out, no entry stands under the public key,
and the share can be encrypted and written. -/
def Saves (c : Coordinator C) (amb : Ambient)
    (out : ProtocolOutput KeygenRequest C.LocalKey) : Prop :=
  amb.casOk = true ∧ (c.db (sumPk out.output)).isNone = true ∧
    match (c.shareOf out).encrypt amb.seed with
    | .ok stored => (C.encryptedStoredLocalShare.write stored).isSome = true
    | .error _ => False

instance (c : Coordinator C) (amb : Ambient) (out : ProtocolOutput KeygenRequest C.LocalKey) :
    Decidable (c.Saves amb out) := by
  unfold Saves
  split <;> infer_instance

theorem Retrievable.continues {c c' : Coordinator C}
    {out : ProtocolOutput KeygenRequest C.LocalKey} (h : c.Retrievable out)
    (hc : Node.Continues c c') : c'.Retrievable out := by
  intro amb hget
  have hold := h amb hget
  rw [shareOf, hc.pkStr, hc.sk]
  simp only [retrieveShare, Tree.get, hget, if_true, bind_eq_ok, context_eq_ok] at hold ⊢
  obtain ⟨stored, hstored, hrest⟩ := hold
  exact ⟨stored, hc.db _ _ hstored, hrest⟩

/-- **A saved share can be retrieved.** -/
theorem retrievable_of_saves (laws : StorageLaws C) {c : Coordinator C}
    (hown : c.pkStr = C.ownKey c.sk) (ctx : Ctx)
    {out : ProtocolOutput KeygenRequest C.LocalKey} (h : c.Saves ctx.toAmbient out) :
    ({ c with db := c.dbAfterOutputKG out ctx } : Coordinator C).Retrievable out := by
  obtain ⟨hcas, hnone, hwrite⟩ := h
  cases henc : (c.shareOf out).encrypt ctx.seed with
  | error e => simp [henc] at hwrite
  | ok stored =>
      simp only [henc, Option.isSome_iff_exists] at hwrite
      obtain ⟨blob, hblob⟩ := hwrite
      have hdb : c.dbAfterOutputKG out ctx =
          FirstWrite.put c.db (sumPk out.output) blob := by
        have hsave : saveShare c.db ctx.toAmbient (c.shareOf out) =
            .ok (FirstWrite.put c.db (sumPk out.output) blob) := by
          simp only [saveShare, henc, withContext_ok, hblob, context_some, bind, Except.bind,
            Tree.compareAndSwap, hcas, if_true]
          rfl
        simp only [dbAfterOutputKG, hsave]
      have hentry : c.dbAfterOutputKG out ctx (sumPk out.output) = some blob := by
        rw [hdb, FirstWrite.put_fresh (Option.isNone_iff_eq_none.mp hnone)]
      intro amb hget
      have hdec := decrypt_encrypt laws (s := c.shareOf out) hown henc
      simp [retrieveShare, Tree.get, hget, hentry, laws.encryptedStoredLocalShare _ _ hblob, hdec,
        bind, Except.bind, shareOf]

end Coordinator

namespace Node

/-! ## Steps and runs -/

/-- Where the output of a keygen player is taken up, its share is saved. -/
def SavesShares (n : Node C) (e : Event) : Prop :=
  match e, n.mailbox with
  | .mail amb, .outputKG _ out :: _ => n.coordinator.Saves amb out
  | _, _ => True

instance (n : Node C) (e : Event) : Decidable (SavesShares n e) :=
  match n, e with
  | { coordinator := c, mailbox := .outputKG _ out :: _, .. }, .mail amb =>
      inferInstanceAs (Decidable (c.Saves amb out))
  | { mailbox := [], .. }, .mail _ | { mailbox := .request _ :: _, .. }, .mail _
  | { mailbox := .outgoing _ :: _, .. }, .mail _ | { mailbox := .errorKG _ :: _, .. }, .mail _
  | { mailbox := .errorO _ :: _, .. }, .mail _ | { mailbox := .outputO .. :: _, .. }, .mail _
  | { mailbox := .outputS .. :: _, .. }, .mail _ => .isTrue trivial
  | _, .wire .. | _, .finished | _, .sendOne _ | _, .request _ | _, .fire _ | _, .retry _
  | _, .tickKG .. | _, .tickO .. | _, .playKG .. | _, .playO .. | _, .startS _ | _, .playS _ => .isTrue trivial

/-- A keygen that is reported done. -/
def IsKeygenDone (r : CheckResultResponse) : Prop :=
  r.requestType = .keygen ∧ r.requestStatus = .done

/-- Only the output of a keygen player has a keygen reported done. -/
theorem Handled.of_keygenDone {c c' : Coordinator C} {ctx : Ctx} {m : Mail C}
    {r : Except (Stop String) Unit} {es : List (Effect C)} (h : Handled c ctx m r c' es)
    {status : CheckResultResponse} (hmem : .status status ∈ es) (hdone : IsKeygenDone status) :
    ∃ a out, m = .outputKG a out ∧ status = Coordinator.keygenDone out ∧
      c'.db = c.dbAfterOutputKG out ctx := by
  obtain ⟨htype, hstatus⟩ := hdone
  cases h with
  | keygenRequest h =>
      cases h <;> simp only [List.mem_cons, List.not_mem_nil, Effect.status.injEq, reduceCtorEq,
        or_false] at hmem
      all_goals
        subst hmem
        cases hstatus
  | signRequest h =>
      cases h <;> simp only [List.mem_cons, List.not_mem_nil, Effect.status.injEq, reduceCtorEq,
        or_false, false_or] at hmem
      all_goals
        subst hmem
        cases hstatus
  | outgoing hes =>
      obtain ⟨m, hm⟩ := hes _ hmem
      cases hm
  | outputKG h =>
      cases h with
      | panicked _ => cases hmem
      | done _ =>
          simp only [List.mem_singleton, Effect.status.injEq] at hmem
          exact ⟨_, _, rfl, hmem, rfl⟩
  | outputO h =>
      cases h <;> simp only [List.mem_cons, List.not_mem_nil, Effect.status.injEq, reduceCtorEq,
        or_false, false_or] at hmem
      all_goals
        subst hmem
        cases htype
  | outputS =>
      simp only [List.mem_singleton, Effect.status.injEq] at hmem
      subst hmem
      cases htype

/-- Every keygen reported done comes from an output whose share can be
retrieved. -/
def DoneAreStored (os : List (Obs C)) (n : Node C) : Prop :=
  ∀ r, .effect (.status r) ∈ os → IsKeygenDone r → ∃ a out, .handled (.outputKG a out) ∈ os ∧
    r = Coordinator.keygenDone out ∧ n.coordinator.Retrievable out

theorem DoneAreStored.step (laws : StorageLaws C) {os o : List (Obs C)} {n t : Node C} {e : Event}
    (h : DoneAreStored os n) (hown : n.coordinator.pkStr = C.ownKey n.coordinator.sk)
    (hg : SavesShares n e) (hs : Steps n e t o) : DoneAreStored (os ++ o) t := by
  intro r hr hdone
  rcases List.mem_append.mp hr with hr | hr
  · obtain ⟨a, out, hout, heq, hret⟩ := h r hr hdone
    exact ⟨a, out, List.mem_append_left _ hout, heq, hret.continues hs.continues⟩
  · cases hs.turns with
    | idle _ ho => cases ho _ hr
    | @handled amb m rest _ c es he hbox hh hc _ _ ho =>
        subst he
        rw [ho] at hr
        obtain ⟨e', he', heq⟩ := List.mem_map.mp ((List.mem_cons.mp hr).resolve_left (by simp))
        cases heq
        obtain ⟨a, out, rfl, heq, hdb⟩ := hh.of_keygenDone he' hdone
        have hsaves : n.coordinator.Saves amb out := by simpa [SavesShares, hbox] using hg
        refine ⟨a, out, List.mem_append_right _ (ho ▸ List.mem_cons_self), heq, ?_⟩
        refine (Coordinator.retrievable_of_saves laws hown (n.ctx amb) hsaves).continues ?_
        have hcont := hh.continues
        rw [hc]
        exact ⟨hcont.pkStr, hcont.sk, hdb ▸ FirstWrite.Keeps.refl _⟩

/-- **A finished key has its share.** In a run in which every share is saved, a
keygen that is reported done with result `P` comes from a request the
coordinator took up and the output of its player, and from then on retrieving
`P` yields the key of that output with the participants of that request. -/
theorem retrieveShare_of_keygenDone (laws : StorageLaws C) {sk : C.SecretKey} {db : Tree C}
    {os : List (Obs C)} {n : Node C} (hrun : Run step SavesShares (init sk db) os n)
    {r : CheckResultResponse} (hr : .effect (.status r) ∈ os) (htype : r.requestType = .keygen)
    (hdone : r.requestStatus = .done) :
    ∃ req a out, .handled (.request (.keygen req)) ∈ os ∧ .handled (.outputKG a out) ∈ os ∧
      out.input = req ∧ r.requestId = req.requestId ∧
      (∃ i, n.identitiesKG[a]? = some i ∧ i.input = req) ∧
      ∀ amb, amb.getOk = true → ∃ s, retrieveShare n.coordinator.db sk amb r.result = .ok s ∧
        s.share = out.output ∧ s.publicKeys = req.participantPublicKeys := by
  have hcont := continues_of_run hrun
  have hstored : DoneAreStored os n := by
    refine hrun.invariant _ (fun r hr => by cases hr) fun hr' h hg hs => ?_
    have hc := continues_of_run hr'
    refine h.step laws ?_ hg (step_cases hs)
    rw [hc.pkStr, hc.sk]
    rfl
  obtain ⟨a, out, hout, rfl, hret⟩ := hstored r hr ⟨htype, hdone⟩
  obtain ⟨i, hi, hin⟩ := (genuine_of_run hrun).handled _ hout
  have hreq := requestedKG_of_run hrun i (List.mem_of_getElem? hi)
  refine ⟨out.input, a, out, hin ▸ hreq, hout, rfl, rfl, ⟨i, hi, hin.symm⟩, fun amb hget => ?_⟩
  have hsk : n.coordinator.sk = sk := hcont.sk
  exact ⟨_, hsk ▸ hret amb hget, rfl, rfl⟩

end Node

namespace Sample

theorem parsePublicKey_keyBytes (p : Party) :
    (Party.all.find? fun q => q.keyBytes.data = p.keyBytes.data) = some p := by
  cases p <;> decide +kernel

theorem decrypt_encrypt (p : Party) (seed : Nat) (bytes : ByteArray) :
    (encrypt p seed bytes).bind (decrypt p) = some bytes := by
  simp [encrypt, decrypt]

theorem storageLaws (sc : Scenario) : StorageLaws (crates sc) where
  hexDecode := Hex.decode_encode
  parsePublicKey := parsePublicKey_keyBytes
  decrypt := by
    intro p seed bytes ciphertext (h : encrypt p seed bytes = some ciphertext)
    have hround := decrypt_encrypt p seed bytes
    rwa [h] at hround
  localKey := by
    rintro key bytes h
    cases h
    rfl
  encryptedStoredLocalShare := by
    rintro share blob h
    cases h
    rfl

/-- The keygen of Alice and Bob as its client sees it end. -/
def finishedKeygen : CheckResultResponse :=
  { requestId := "k1", result := jointKey, requestType := .keygen, requestStatus := .done }

/-- The status was sent. -/
def reports (r : CheckResultResponse) (os : List (Obs C)) : Bool :=
  os.any fun | .effect (.status r') => r' = r | _ => false

theorem mem_of_reports {r : CheckResultResponse} {os : List (Obs C)} (h : reports r os = true) :
    .effect (.status r) ∈ os := by
  obtain ⟨x, hx, hr⟩ := List.any_eq_true.mp h
  split at hr
  · rwa [of_decide_eq_true hr] at hx
  · cases hr

theorem retrieveShare_of_finishedKeygen :
    ∃ os n, Run Node.step Node.SavesShares (bobsNode keygen nothing) os n ∧
      .effect (.status finishedKeygen) ∈ os ∧
        ∃ req a out, .handled (.request (.keygen req)) ∈ os ∧ .handled (.outputKG a out) ∈ os ∧
          out.input = req ∧ finishedKeygen.requestId = req.requestId ∧
          (∃ i, n.identitiesKG[a]? = some i ∧ i.input = req) ∧
          ∀ amb, amb.getOk = true →
            ∃ s, retrieveShare n.coordinator.db Party.bob amb finishedKeygen.result = .ok s ∧
              s.share = out.output ∧ s.publicKeys = req.participantPublicKeys := by
  obtain ⟨os, n, hrun, hend⟩ := Run.ofGuardedTest Node.step Node.SavesShares
    (bobsNode keygen nothing) (runKeygen ++ [.mail allWell]) (fun r => reports finishedKeygen r.2)
    (by decide +kernel)
  have hmem := mem_of_reports hend
  exact ⟨os, n, hrun, hmem,
    Node.retrieveShare_of_keygenDone (storageLaws keygen) hrun hmem rfl rfl⟩

/-- The database fails when the share is saved. -/
theorem keygenDone_without_share :
    ∃ os n, Run Node.step anyStep (bobsNode keygen nothing) os n ∧
      .effect (.status finishedKeygen) ∈ os ∧
        ∀ amb s, retrieveShare n.coordinator.db Party.bob amb finishedKeygen.result ≠ .ok s := by
  obtain ⟨os, n, hrun, hend⟩ := Run.ofTest Node.step anyStep
    (bobsNode keygen nothing)
    (runKeygen ++ [.mail { allWell with casOk := false }])
    (fun r => reports finishedKeygen r.2 && (r.1.coordinator.db jointKey).isNone)
    (by decide +kernel) (admits_anyStep _ _)
  obtain ⟨hdone, hnone⟩ := Bool.and_eq_true_iff.mp hend
  refine ⟨os, n, hrun, mem_of_reports hdone, fun amb s h => ?_⟩
  simp only [retrieveShare, bind_eq_ok, Tree.get] at h
  obtain ⟨stored, hstored, -⟩ := h
  split at hstored
  · rw [context_eq_ok] at hstored
    cases (Option.isNone_iff_eq_none.mp hnone).symm.trans hstored
  · cases hstored

end Sample

end MpcServer

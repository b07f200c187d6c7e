import MpcServer.Shares

/-!
# Two stores in one tree

Groups and shares are written under keys of their own kind, a group id of eight
bytes a participant and a public key of sixty-six, so neither kind ever stands
in the other's way, and each key keeps what was saved under it first.
-/

namespace MpcServer

open Rust Machine

variable {C : Crates}

variable (C) in
/-- Besides the laws of the shares: two digits a byte, a group that reads back,
and a reader that refuses an object without its fields. -/
structure StoreLaws : Prop extends StorageLaws C where
  byteLength_hexEncode : ∀ bytes, byteLength (C.hexEncode bytes) = 2 * bytes.size
  publicKeyGroup : ∀ group blob, C.publicKeyGroup.write group = some blob →
    C.publicKeyGroup.read blob = some group
  groupAsShare : ∀ group blob, C.publicKeyGroup.write group = some blob →
    C.encryptedStoredLocalShare.read blob = none
  shareAsGroup : ∀ share blob, C.encryptedStoredLocalShare.write share = some blob →
    C.publicKeyGroup.read blob = none

variable (C) in
/-- A call of `save_group`, on a group that `new` builds, or of
`LocalShareStore::save`. -/
inductive SaveCall
  | group (keys : List String) (t : UInt16) (own : String) (amb : Ambient)
  | share (s : StoredLocalShare C) (amb : Ambient)

variable (C) in
/-- What a call that was answered `Ok` has saved. -/
inductive Saved
  | group (g : PublicKeyGroup)
  | share (s : StoredLocalShare C)

namespace Tree

/-- One call on the tree; a list of keys that `new` does not accept is no call. -/
def saveStep : Step (Tree C) (SaveCall C) (Saved C) := fun db call =>
  match call with
  | .group keys t own amb =>
      match PublicKeyGroup.new keys t own with
      | .error _ => none
      | .ok g =>
          match saveGroup db amb g with
          | .ok db => some (db, [.group g])
          | .error _ => some (db, [])
  | .share s amb =>
      match saveShare db amb s with
      | .ok db => some (db, [.share s])
      | .error _ => some (db, [])

/-- The public key of a share has thirty-three bytes. -/
def CompressedKeys (_ : Tree C) : SaveCall C → Prop
  | .group _ _ _ _ => True
  | .share s _ => (C.publicKeyBytes s.share).size = 33

instance (db : Tree C) (call : SaveCall C) : Decidable (CompressedKeys db call) := by
  unfold CompressedKeys
  split <;> infer_instance

/-- The share that was saved first under a key. -/
def firstShare (saved : List (Saved C)) (publicKey : String) : Option (StoredLocalShare C) :=
  saved.findSome? fun
    | .share s => if sumPk s.share = publicKey then some s else none
    | .group _ => none

/-- The group that was saved first under an id. -/
def firstGroup (saved : List (Saved C)) (groupId : String) : Option PublicKeyGroup :=
  saved.findSome? fun
    | .group g => if g.groupId = groupId then some g else none
    | .share _ => none

/-! ## The writes of a run -/

/-- The write that saves something, under a key of its kind. -/
inductive Writes : Saved C → String × C.Blob → Prop
  | group {g blob} : 8 ∣ byteLength g.groupId → C.publicKeyGroup.write g = some blob →
      Writes (.group g) (g.groupId, blob)
  | share {s seed stored blob} : (C.publicKeyBytes s.share).size = 33 →
      s.encrypt seed = .ok stored → C.encryptedStoredLocalShare.write stored = some blob →
      Writes (.share s) (sumPk s.share, blob)

/-- The tree after these writes, from an empty one. -/
def written (ws : List (String × C.Blob)) : Tree C :=
  ws.foldl (fun db w => FirstWrite.put db w.1 w.2) fun _ => none

theorem written_append (ws : List (String × C.Blob)) (w : String × C.Blob) :
    written (ws ++ [w]) = FirstWrite.put (written ws) w.1 w.2 := by
  simp [written]

theorem written_apply (ws : List (String × C.Blob)) (key : String) :
    written ws key = (ws.find? fun w => w.1 = key).map Prod.snd := by
  simp [written, FirstWrite.lookup_puts]

/-- What a call comes to: nothing, or one write of its kind. -/
inductive Outcome (db : Tree C) : SaveCall C → Tree C → List (Saved C) → Prop
  | failed {call} : Outcome db call db []
  | group {keys t own amb g blob} : Writes (.group g) (g.groupId, blob) →
      Outcome db (.group keys t own amb) (FirstWrite.put db g.groupId blob) [.group g]
  | share {s amb blob} : Writes (.share s) (sumPk s.share, blob) →
      Outcome db (.share s amb) (FirstWrite.put db (sumPk s.share) blob) [.share s]

theorem outcome_of_step {db db' : Tree C} {call : SaveCall C} {o : List (Saved C)}
    (hg : CompressedKeys db call) (h : saveStep db call = some (db', o)) :
    Outcome db call db' o := by
  cases call with
  | group keys t own amb =>
      simp only [saveStep] at h
      cases hnew : PublicKeyGroup.new keys t own with
      | error p => simp [hnew] at h
      | ok g =>
          obtain ⟨gid, hgid, rfl⟩ := PublicKeyGroup.new_eq_ok.mp hnew
          simp only [hnew] at h
          cases hsave : saveGroup db amb ⟨gid, t, keys, own⟩ with
          | error e =>
              simp only [hsave] at h
              cases h
              exact .failed
          | ok db₁ =>
              simp only [hsave] at h
              cases h
              simp only [saveGroup, bind_eq_ok, context_eq_ok, compareAndSwap] at hsave
              obtain ⟨blob, hblob, hcas⟩ := hsave
              split at hcas
              · cases hcas
                -- a group id is made of eight bytes of each key
                have hlength : 8 ∣ byteLength gid :=
                  ⟨keys.length, PublicKeyGroup.byteLength_groupIdOf hgid⟩
                exact .group (.group hlength hblob)
              · cases hcas
  | share s amb =>
      simp only [saveStep] at h
      cases hsave : saveShare db amb s with
      | error e =>
          simp only [hsave] at h
          cases h
          exact .failed
      | ok db₁ =>
          simp only [hsave] at h
          cases h
          simp only [saveShare, bind_eq_ok, withContext_eq_ok, context_eq_ok,
            compareAndSwap] at hsave
          obtain ⟨stored, hstored, blob, hblob, hcas⟩ := hsave
          split at hcas
          · cases hcas
            exact .share (.share hg hstored hblob)
          · cases hcas

/-- The tree of a run is what the saves have written, in their order. -/
theorem written_of_run {saved : List (Saved C)} {db : Tree C}
    (hrun : Run saveStep CompressedKeys (fun _ => none) saved db) :
    ∃ ws, db = written ws ∧ List.Forall₂ Writes saved ws := by
  refine hrun.invariant (fun saved db => ∃ ws, db = written ws ∧ List.Forall₂ Writes saved ws)
    ⟨[], rfl, .nil⟩ ?_
  rintro saved db call db' o - ⟨ws, rfl, hws⟩ hg hs
  cases outcome_of_step hg hs with
  | failed => exact ⟨ws, rfl, by simpa using hws⟩
  | group hw =>
      exact ⟨ws ++ [_], (written_append ws (_, _)).symm, List.rel_append hws (.cons hw .nil)⟩
  | share hw =>
      exact ⟨ws ++ [_], (written_append ws (_, _)).symm, List.rel_append hws (.cons hw .nil)⟩

/-! ## Reading the writes back -/

section
variable {saved : List (Saved C)} {ws : List (String × C.Blob)}

/-- A write under a key of a share's length saves a share. -/
theorem Writes.isShare {x : Saved C} {w : String × C.Blob} (h : Writes x w)
    (hlength : byteLength w.1 = 66) : ∃ s, x = .share s ∧ sumPk s.share = w.1 := by
  cases h with
  | group hdvd _ => exact absurd (hlength ▸ hdvd : 8 ∣ 66) (by decide)
  | @share s _ _ _ _ _ _ => exact ⟨s, rfl, rfl⟩

/-- A write under a key of a group id's length saves a group. -/
theorem Writes.isGroup (laws : StoreLaws C) {x : Saved C} {w : String × C.Blob}
    (h : Writes x w) (hlength : 8 ∣ byteLength w.1) : ∃ g, x = .group g ∧ g.groupId = w.1 := by
  cases h with
  | @group g _ _ _ => exact ⟨g, rfl, rfl⟩
  | share hsize _ _ =>
      rw [show byteLength (sumPk _) = _ from laws.byteLength_hexEncode _, hsize] at hlength
      omega

theorem Writes.ofShare {s : StoredLocalShare C} {w : String × C.Blob} (h : Writes (.share s) w) :
    ∃ seed stored, s.encrypt seed = .ok stored ∧
      C.encryptedStoredLocalShare.write stored = some w.2 := by
  cases h with
  | share _ henc hwrite => exact ⟨_, _, henc, hwrite⟩

theorem Writes.ofGroup {g : PublicKeyGroup} {w : String × C.Blob} (h : Writes (.group g) w) :
    C.publicKeyGroup.write g = some w.2 := by
  cases h with
  | group _ hwrite => exact hwrite

/-- The first write under a public key is that of the first share. -/
theorem find?_of_firstShare (hws : List.Forall₂ Writes saved ws) {publicKey : String}
    (hlength : byteLength publicKey = 66) {s : StoredLocalShare C}
    (h : firstShare saved publicKey = some s) :
    ∃ blob, (ws.find? fun w => w.1 = publicKey) = some (publicKey, blob) ∧
      Writes (.share s) (publicKey, blob) := by
  refine (FirstWrite.find?_of_findSome? publicKey hws (fun x w hw => ?pick) h).elim ?_
  case pick =>
    constructor
    · intro hpicked
      cases hw with
      | group _ _ => cases hpicked
      | share _ _ _ => simpa using hpicked
    · intro hkey
      obtain ⟨s', rfl, hs'⟩ := hw.isShare (hkey ▸ hlength)
      simp [hs', hkey]
  rintro x ⟨blob, hx, hwrites, hfind⟩
  refine ⟨blob, hfind, ?_⟩
  cases x with
  | group g => cases hx
  | share s' =>
      obtain ⟨-, hs⟩ := Option.ite_none_right_eq_some.mp hx
      cases hs
      exact hwrites

/-- The first write under a group id is that of the first group. -/
theorem find?_of_firstGroup (laws : StoreLaws C) (hws : List.Forall₂ Writes saved ws)
    {groupId : String} (hlength : 8 ∣ byteLength groupId) {g : PublicKeyGroup}
    (h : firstGroup saved groupId = some g) :
    ∃ blob, (ws.find? fun w => w.1 = groupId) = some (groupId, blob) ∧
      Writes (.group g) (groupId, blob) := by
  refine (FirstWrite.find?_of_findSome? groupId hws (fun x w hw => ?pick) h).elim ?_
  case pick =>
    constructor
    · intro hpicked
      cases hw with
      | group _ _ => simpa using hpicked
      | share _ _ _ => cases hpicked
    · intro hkey
      obtain ⟨g', rfl, hg'⟩ := hw.isGroup laws (hkey ▸ hlength)
      simp [hg', hkey]
  rintro x ⟨blob, hx, hwrites, hfind⟩
  refine ⟨blob, hfind, ?_⟩
  cases x with
  | group g' =>
      obtain ⟨-, hg⟩ := Option.ite_none_right_eq_some.mp hx
      cases hg
      exact hwrites
  | share s => cases hx

/-- An entry is one of the writes. -/
theorem writes_of_entry (hws : List.Forall₂ Writes saved ws) {key : String} {blob : C.Blob}
    (h : written ws key = some blob) : ∃ x ∈ saved, Writes x (key, blob) := by
  rw [written_apply] at h
  obtain ⟨w, hfind, rfl⟩ := Option.map_eq_some_iff.mp h
  have hkey : w.1 = key := by simpa using List.find?_some hfind
  subst hkey
  have hmem := List.mem_of_find?_eq_some hfind
  clear hfind h
  induction hws with
  | nil => cases hmem
  | @cons x _ saved _ hw _ ih =>
      rcases List.mem_cons.mp hmem with rfl | hmem
      · exact ⟨x, List.mem_cons_self, hw⟩
      · obtain ⟨y, hy, hwrites⟩ := ih hmem
        exact ⟨y, List.mem_cons_of_mem _ hy, hwrites⟩

end

/-! ## The two stores -/

/-- What a call answers does not depend on what the tree holds. -/
theorem saveStep_answers (db db' : Tree C) (call : SaveCall C) :
    (saveStep db call).map Prod.snd = (saveStep db' call).map Prod.snd := by
  cases call with
  | group keys t own amb =>
      cases hnew : PublicKeyGroup.new keys t own with
      | error p => simp [saveStep, hnew]
      | ok g =>
          cases hwrite : C.publicKeyGroup.write g <;> cases hcas : amb.casOk <;>
            simp [saveStep, hnew, saveGroup, compareAndSwap, hwrite, hcas, bind, Except.bind]
  | share s amb =>
      cases henc : s.encrypt amb.seed with
      | error e => simp [saveStep, saveShare, henc, bind, Except.bind]
      | ok stored =>
          cases hwrite : C.encryptedStoredLocalShare.write stored <;> cases hcas : amb.casOk <;>
            simp [saveStep, saveShare, compareAndSwap, henc, hwrite, hcas, bind, Except.bind]

section
variable {saved : List (Saved C)} {db db' : Tree C}

theorem byteLength_sumPk (laws : StoreLaws C) {key : C.LocalKey}
    (hsize : (C.publicKeyBytes key).size = 33) : byteLength (sumPk key) = 66 := by
  rw [sumPk, laws.byteLength_hexEncode, hsize]

theorem dvd_byteLength_groupIdOf {keys : List String} {groupId : String}
    (h : PublicKeyGroup.groupIdOf keys = .ok groupId) : 8 ∣ byteLength groupId :=
  ⟨keys.length, PublicKeyGroup.byteLength_groupIdOf h⟩

theorem retrieveShare_of_firstShare (laws : StoreLaws C)
    (hrun : Run saveStep CompressedKeys (fun _ => none) saved db) {key : C.LocalKey}
    (hsize : (C.publicKeyBytes key).size = 33) {s : StoredLocalShare C}
    (h : firstShare saved (sumPk key) = some s) {sk : C.SecretKey}
    (hown : s.getOwnPublicKey = .ok (C.publicKeyOf sk)) {amb : Ambient} (hget : amb.getOk = true) :
    retrieveShare db sk amb (sumPk key) = .ok s := by
  obtain ⟨ws, rfl, hws⟩ := written_of_run hrun
  obtain ⟨blob, hfind, hwrites⟩ := find?_of_firstShare hws (byteLength_sumPk laws hsize) h
  have hentry : written ws (sumPk key) = some blob := by
    rw [written_apply, hfind, Option.map_some]
  obtain ⟨seed, stored, henc, hwrite⟩ := hwrites.ofShare
  have hdec := decrypt_of_own laws.toStorageLaws hown henc
  simp [retrieveShare, Tree.get, hget, hentry, laws.encryptedStoredLocalShare _ _ hwrite, hdec,
    bind, Except.bind]

theorem retrieveGroup_of_firstGroup (laws : StoreLaws C)
    (hrun : Run saveStep CompressedKeys (fun _ => none) saved db) {groupId : String}
    (hlength : 8 ∣ byteLength groupId) {g : PublicKeyGroup}
    (h : firstGroup saved groupId = some g) {amb : Ambient} (hget : amb.getOk = true) :
    retrieveGroup db amb groupId = .ok g := by
  obtain ⟨ws, rfl, hws⟩ := written_of_run hrun
  obtain ⟨blob, hfind, hwrites⟩ := find?_of_firstGroup laws hws hlength h
  have hentry : written ws groupId = some blob := by
    rw [written_apply, hfind, Option.map_some]
  simp [retrieveGroup, Tree.get, hget, hentry, laws.publicKeyGroup _ _ hwrites.ofGroup, bind,
    Except.bind]

/-- The group store has no answer under a public key. -/
theorem retrieveGroup_sumPk (laws : StoreLaws C)
    (hrun : Run saveStep CompressedKeys (fun _ => none) saved db) {key : C.LocalKey}
    (hsize : (C.publicKeyBytes key).size = 33) (amb : Ambient) :
    ∃ e, retrieveGroup db amb (sumPk key) = .error e := by
  obtain ⟨ws, rfl, hws⟩ := written_of_run hrun
  cases h : retrieveGroup (written ws) amb (sumPk key) with
  | error e => exact ⟨e, rfl⟩
  | ok g =>
      simp only [retrieveGroup, Tree.get, bind_eq_ok, context_eq_ok] at h
      obtain ⟨blob, hblob, hread⟩ := h
      split at hblob
      · obtain ⟨x, -, hwrites⟩ := writes_of_entry hws (context_eq_ok.mp hblob)
        obtain ⟨s, rfl, -⟩ := hwrites.isShare (byteLength_sumPk laws hsize)
        obtain ⟨seed, stored, -, hwrite⟩ := hwrites.ofShare
        cases (laws.shareAsGroup _ _ hwrite).symm.trans hread
      · cases hblob

/-- The share store has no answer under a group id. -/
theorem retrieveShare_groupId (laws : StoreLaws C)
    (hrun : Run saveStep CompressedKeys (fun _ => none) saved db) {groupId : String}
    (hlength : 8 ∣ byteLength groupId) (sk : C.SecretKey) (amb : Ambient) :
    ∃ e, retrieveShare db sk amb groupId = .error e := by
  obtain ⟨ws, rfl, hws⟩ := written_of_run hrun
  cases h : retrieveShare (written ws) sk amb groupId with
  | error e => exact ⟨e, rfl⟩
  | ok s =>
      simp only [retrieveShare, Tree.get, bind_eq_ok, context_eq_ok] at h
      obtain ⟨blob, hblob, encrypted, hread, -⟩ := h
      split at hblob
      · obtain ⟨x, -, hwrites⟩ := writes_of_entry hws (context_eq_ok.mp hblob)
        obtain ⟨g, rfl, -⟩ := hwrites.isGroup laws hlength
        cases (laws.groupAsShare _ _ hwrites.ofGroup).symm.trans hread
      · cases hblob

/-- A group that is saved leaves the entries of the shares alone. -/
theorem saveGroup_frame (laws : StoreLaws C) {keys : List String} {t : UInt16} {own : String}
    {amb : Ambient} {o : List (Saved C)}
    (hs : saveStep db (.group keys t own amb) = some (db', o)) {key : C.LocalKey}
    (hsize : (C.publicKeyBytes key).size = 33) : db' (sumPk key) = db (sumPk key) := by
  have hg : CompressedKeys db (.group keys t own amb) := trivial
  cases outcome_of_step hg hs with
  | failed => rfl
  | group hw =>
      refine FirstWrite.put_ne _ (fun heq => ?_) _
      obtain ⟨s, hs, -⟩ := hw.isShare (heq ▸ byteLength_sumPk laws hsize)
      cases hs

/-- A share that is saved leaves the entries of the groups alone. -/
theorem saveShare_frame (laws : StoreLaws C) {s : StoredLocalShare C}
    (hsize : (C.publicKeyBytes s.share).size = 33) {amb : Ambient} {o : List (Saved C)}
    (hs : saveStep db (.share s amb) = some (db', o)) {groupId : String}
    (hlength : 8 ∣ byteLength groupId) : db' groupId = db groupId := by
  have hg : CompressedKeys db (.share s amb) := hsize
  cases outcome_of_step hg hs with
  | failed => rfl
  | share hw =>
      refine FirstWrite.put_ne _ (fun heq => ?_) _
      obtain ⟨g, hg, -⟩ := hw.isGroup laws (heq ▸ hlength)
      cases hg

end

/-- **Two stores, one tree.** After any calls of the two `save` functions on a
tree that starts empty: the share saved first under a public key is what its
holder retrieves, the group saved first under an id is what is retrieved for it,
neither store answers for a key of the other's kind, and one more call answers
as it would on any tree and leaves the other kind's entries alone. -/
theorem stores_apart (laws : StoreLaws C) {saved : List (Saved C)} {db : Tree C}
    (hrun : Run saveStep CompressedKeys (fun _ => none) saved db) :
    (∀ key : C.LocalKey, (C.publicKeyBytes key).size = 33 →
      (∀ s, firstShare saved (sumPk key) = some s → ∀ sk amb, amb.getOk = true →
        s.getOwnPublicKey = .ok (C.publicKeyOf sk) →
          retrieveShare db sk amb (sumPk key) = .ok s) ∧
      (∀ amb, ∃ e, retrieveGroup db amb (sumPk key) = .error e) ∧
      ∀ keys t own amb db' o, saveStep db (.group keys t own amb) = some (db', o) →
        db' (sumPk key) = db (sumPk key)) ∧
    (∀ keys groupId, PublicKeyGroup.groupIdOf keys = .ok groupId →
      (∀ g, firstGroup saved groupId = some g → ∀ amb, amb.getOk = true →
        retrieveGroup db amb groupId = .ok g) ∧
      (∀ sk amb, ∃ e, retrieveShare db sk amb groupId = .error e) ∧
      ∀ s amb db' o, (C.publicKeyBytes s.share).size = 33 →
        saveStep db (.share s amb) = some (db', o) → db' groupId = db groupId) ∧
    ∀ db' call, (saveStep db call).map Prod.snd = (saveStep db' call).map Prod.snd := by
  refine ⟨fun key hsize => ⟨?_, ?_, ?_⟩, fun keys groupId hid => ⟨?_, ?_, ?_⟩,
    fun db' call => saveStep_answers db db' call⟩
  · intro s hfirst sk amb hget hown
    exact retrieveShare_of_firstShare laws hrun hsize hfirst hown hget
  · exact retrieveGroup_sumPk laws hrun hsize
  · intro keys t own amb db' o hs
    exact saveGroup_frame laws hs hsize
  · intro g hfirst amb hget
    exact retrieveGroup_of_firstGroup laws hrun (dvd_byteLength_groupIdOf hid) hfirst hget
  · exact retrieveShare_groupId laws hrun (dvd_byteLength_groupIdOf hid)
  · intro s amb db' o hsize hs
    exact saveShare_frame laws hsize hs (dvd_byteLength_groupIdOf hid)

end Tree

namespace Sample

theorem storeLaws (sc : Scenario) : StoreLaws (crates sc) where
  toStorageLaws := storageLaws sc
  byteLength_hexEncode := Hex.byteLength_encode
  publicKeyGroup := by
    rintro group blob h
    cases h
    rfl
  groupAsShare := by
    rintro group blob h
    cases h
    rfl
  shareAsGroup := by
    rintro share blob h
    cases h
    rfl

/-- Bob's share of the key under `jointKey`, among these participants. -/
def jointShare (parties : List Party) : StoredLocalShare (crates keygen) :=
  let share : LocalKey := { t := 1, n := 2, tag := 7 }
  { publicKeys := keyTexts parties, ownPublicKey := Party.bob.keyText, share }

/-- A group and a share, and another of each under the same keys. -/
def fourSaves : List (SaveCall (crates keygen)) :=
  [.group (keyTexts [.alice, .bob]) 1 Party.bob.keyText allWell,
    .share (jointShare [.alice, .bob]) allWell, .share (jointShare [.bob, .carol]) allWell,
    .group (keyTexts [.aliceTwin, .bob]) 2 Party.bob.keyText allWell]

/-- What the sample saved first is there. -/
def firstsAreKept (saved : List (Saved (crates keygen))) : Bool :=
  (Tree.firstShare saved jointKey).any (fun s => decide
      (s.publicKeys = keyTexts [.alice, .bob] ∧ s.ownPublicKey = Party.bob.keyText)) &&
    decide (Tree.firstGroup saved "73ee5cd6c20e0c08" = some pairsGroup)

/-- The first of each is what is retrieved. -/
theorem stores_apart_of_fourSaves :
    ∃ saved db s, Run Tree.saveStep Tree.CompressedKeys nothing saved db ∧
      Tree.firstShare saved jointKey = some s ∧ s.publicKeys = keyTexts [.alice, .bob] ∧
      Tree.firstGroup saved "73ee5cd6c20e0c08" = some pairsGroup ∧
      retrieveShare (C := crates keygen) db Party.bob allWell jointKey = .ok s ∧
      retrieveGroup db allWell "73ee5cd6c20e0c08" = .ok pairsGroup ∧
      (∃ e, retrieveGroup db allWell jointKey = .error e) ∧
      ∃ e, retrieveShare (C := crates keygen) db Party.bob allWell "73ee5cd6c20e0c08" = .error e := by
  obtain ⟨saved, db, hrun, hend⟩ := Run.ofGuardedTest Tree.saveStep Tree.CompressedKeys
    nothing fourSaves (fun r => firstsAreKept r.2) (by decide)
  simp only [firstsAreKept, Bool.and_eq_true, Option.any_eq_true, decide_eq_true_eq] at hend
  obtain ⟨⟨s, hshare, hkeys, hown⟩, hgroup⟩ := hend
  have hbob : s.ownPublicKey = (crates keygen).ownKey Party.bob :=
    hown.trans Party.bob.encode_keyBytes.symm
  obtain ⟨hshares, hgroups, -⟩ := Tree.stores_apart (storeLaws keygen) hrun
  obtain ⟨hfirstShare, hnoGroup, -⟩ := hshares (jointShare []).share (by decide)
  obtain ⟨hfirstGroup, hnoShare, -⟩ := hgroups (keyTexts [.alice, .bob]) "73ee5cd6c20e0c08"
    (by decide)
  exact ⟨saved, db, s, hrun, hshare, hkeys, hgroup,
    hfirstShare s hshare Party.bob allWell rfl
      (getOwnPublicKey_of_own (storageLaws keygen) hbob),
    hfirstGroup pairsGroup hgroup allWell rfl, hnoGroup allWell, hnoShare Party.bob allWell⟩

end Sample

end MpcServer

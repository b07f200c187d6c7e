import MpcServer.Lib.Text
import MpcServer.Messages

/-!
# Rooms and groups

A room is `<request id>@<group id>`, and the group id is the concatenation of
an eight byte piece of every participant key. Both are plain text joined and
split again; nothing escapes the separator.
-/

namespace MpcServer

open Rust

/-- `ROOM_SEPARATOR` -/
def roomSeparator : Char := '@'

/-- A room without a group id. -/
inductive RoomParseError
  | failedToParseGroupId
  deriving DecidableEq, Repr

/-- The second piece of the room, whatever follows it. -/
def extractGroupId (room : String) : Except RoomParseError String :=
  match splitChar roomSeparator room with
  | _ :: groupId :: _ => .ok groupId
  | _ => .error .failedToParseGroupId

/-- `make_room_id` -/
def makeRoomId (requestId groupId : String) : String :=
  requestId ++ String.ofList [roomSeparator] ++ groupId

theorem extractGroupId_makeRoomId {requestId groupId : String}
    (hrequest : roomSeparator ∉ requestId.toList) (hgroup : roomSeparator ∉ groupId.toList) :
    extractGroupId (makeRoomId requestId groupId) = .ok groupId := by
  rw [extractGroupId, makeRoomId, splitChar_join hrequest hgroup]

/-- With separator-free group ids a room tells both its parts. -/
theorem makeRoomId_inj {requestId requestId' groupId groupId' : String}
    (hgroup : roomSeparator ∉ groupId.toList) (hgroup' : roomSeparator ∉ groupId'.toList) :
    makeRoomId requestId groupId = makeRoomId requestId' groupId' ↔
      requestId = requestId' ∧ groupId = groupId' :=
  ⟨join_inj hgroup hgroup', by rintro ⟨rfl, rfl⟩; rfl⟩

/-- The parties of a computation, in the order of their keys. -/
structure PublicKeyGroup where
  groupId : String
  t : UInt16
  publicKeys : List String
  ownPublicKey : String
  deriving DecidableEq, Repr

namespace PublicKeyGroup

/-- The `for pk in public_keys` loop of `new`: `&pk[2..10]` of every key. -/
def groupIdOf : List String → Except Panic String
  | [] => .ok ""
  | pk :: pks => do
      let piece ← byteSlice pk 2 10
      let rest ← groupIdOf pks
      pure (piece ++ rest)

/-- `PublicKeyGroup::new`; the slices of the keys may panic. -/
def new (publicKeys : List String) (t : UInt16) (ownPublicKey : String) :
    Except Panic PublicKeyGroup := do
  let groupId ← groupIdOf publicKeys
  pure { groupId, t, publicKeys, ownPublicKey }

/-- An index that nobody has. -/
inductive GroupError
  | invalidIndex
  deriving DecidableEq, Repr

/-- The key of a 1-based index. -/
def getPublicKey (group : PublicKeyGroup) (index : Nat) : Except GroupError String :=
  if h : index = 0 ∨ group.publicKeys.length < index then .error .invalidIndex
  else .ok (group.publicKeys.get ⟨index - 1, by omega⟩)

/-- The 1-based position of the first occurrence of a key. -/
def getIndex (group : PublicKeyGroup) (publicKey : String) : Option Nat :=
  (group.publicKeys.findIdx? (· = publicKey)).map (· + 1)

/-- `get_index(..).unwrap() as u16`. -/
def getI (group : PublicKeyGroup) : Except Panic UInt16 :=
  match group.getIndex group.ownPublicKey with
  | some i => .ok (UInt16.ofNat i)
  | none => .error .unwrapNone

/-- `get_t` -/
def getT (group : PublicKeyGroup) : UInt16 := group.t

/-- `get_n`, with the cast of `len`. -/
def getN (group : PublicKeyGroup) : UInt16 := UInt16.ofNat group.publicKeys.length

/-! ## What `new` builds -/

theorem groupIdOf_cons {pk : String} {pks : List String} {gid : String}
    (h : groupIdOf (pk :: pks) = .ok gid) :
    ∃ piece rest, byteSlice pk 2 10 = .ok piece ∧ groupIdOf pks = .ok rest ∧
      gid = piece ++ rest := by
  simp only [groupIdOf] at h
  cases hp : byteSlice pk 2 10 with
  | error e => simp [hp, bind, Except.bind] at h
  | ok piece =>
      cases hr : groupIdOf pks with
      | error e => simp [hp, hr, bind, Except.bind] at h
      | ok rest =>
          simp only [hp, hr, bind, Except.bind, pure, Except.pure, Except.ok.injEq] at h
          exact ⟨piece, rest, rfl, rfl, h.symm⟩

/-- Eight bytes a key. -/
theorem byteLength_groupIdOf {pks : List String} {gid : String}
    (h : groupIdOf pks = .ok gid) : byteLength gid = 8 * pks.length := by
  induction pks generalizing gid with
  | nil => cases h; rfl
  | cons pk pks ih =>
      obtain ⟨piece, rest, hp, hr, rfl⟩ := groupIdOf_cons h
      simp only [byteLength_append, byteLength_byteSlice hp, ih hr, List.length_cons]
      omega

/-- What the id is made of. -/
def pieces (pks : List String) : List (Except Panic String) := pks.map fun pk => byteSlice pk 2 10

theorem groupIdOf_congr {pks pks' : List String} (h : pieces pks = pieces pks') :
    groupIdOf pks = groupIdOf pks' := by
  induction pks generalizing pks' with
  | nil =>
      cases pks' with
      | nil => rfl
      | cons _ _ => cases h
  | cons pk pks ih =>
      cases pks' with
      | nil => cases h
      | cons pk' pks' =>
          obtain ⟨hpiece, hrest⟩ := List.cons.inj h
          simp only [groupIdOf, hpiece, ih hrest]

/-- The pieces can be told apart: each has eight bytes. -/
theorem pieces_of_groupIdOf {pks pks' : List String} {gid : String}
    (h : groupIdOf pks = .ok gid) (h' : groupIdOf pks' = .ok gid) : pieces pks = pieces pks' := by
  have hlength : 8 * pks.length = 8 * pks'.length :=
    (byteLength_groupIdOf h).symm.trans (byteLength_groupIdOf h')
  induction pks generalizing pks' gid with
  | nil =>
      cases pks' with
      | nil => rfl
      | cons _ _ => simp at hlength
  | cons pk pks ih =>
      cases pks' with
      | nil => simp at hlength
      | cons pk' pks' =>
          obtain ⟨piece, rest, hp, hr, rfl⟩ := groupIdOf_cons h
          obtain ⟨piece', rest', hp', hr', heq⟩ := groupIdOf_cons h'
          have hsize : byteLength piece = byteLength piece' := by
            rw [byteLength_byteSlice hp, byteLength_byteSlice hp']
          obtain ⟨rfl, rfl⟩ := append_inj_of_byteLength hsize heq
          rw [List.length_cons, List.length_cons] at hlength
          have hrest := ih hr hr' (by omega)
          simp only [pieces, List.map_cons, hp, hp'] at hrest ⊢
          rw [hrest]

/-- The id holds the piece of every key. -/
theorem infix_groupIdOf {pks : List String} {gid pk : String} (h : groupIdOf pks = .ok gid)
    (hpk : pk ∈ pks) : ∃ piece, byteSlice pk 2 10 = .ok piece ∧ piece.toList <:+: gid.toList := by
  induction pks generalizing gid with
  | nil => cases hpk
  | cons p pks ih =>
      obtain ⟨first, rest, hp, hr, rfl⟩ := groupIdOf_cons h
      rw [String.toList_append]
      rcases List.mem_cons.mp hpk with rfl | hpk
      · exact ⟨first, hp, (List.prefix_append _ _).isInfix⟩
      · obtain ⟨piece, hpiece, hpart⟩ := ih hr hpk
        exact ⟨piece, hpiece, hpart.trans (List.suffix_append _ _).isInfix⟩

/-- Keys with separator-free pieces have a separator-free id. -/
theorem groupIdOf_of_pieces {pks : List String} (h : ∀ pk ∈ pks, ∃ piece,
      byteSlice pk 2 10 = .ok piece ∧ roomSeparator ∉ piece.toList) :
    ∃ gid, groupIdOf pks = .ok gid ∧ roomSeparator ∉ gid.toList := by
  induction pks with
  | nil => exact ⟨"", rfl, List.not_mem_nil⟩
  | cons pk pks ih =>
      obtain ⟨piece, hpiece, hfree⟩ := h pk List.mem_cons_self
      obtain ⟨rest, hrest, hrestFree⟩ := ih fun q hq => h q (List.mem_cons_of_mem _ hq)
      refine ⟨piece ++ rest, by simp [groupIdOf, hpiece, hrest, bind, Except.bind, pure,
        Except.pure], ?_⟩
      rw [String.toList_append, List.mem_append]
      exact fun hmem => hmem.elim hfree hrestFree

theorem new_eq_ok {pks : List String} {t : UInt16} {own : String} {g : PublicKeyGroup} :
    new pks t own = .ok g ↔
      ∃ gid, groupIdOf pks = .ok gid ∧ g = ⟨gid, t, pks, own⟩ := by
  unfold new
  cases groupIdOf pks with
  | error e => simp [bind, Except.bind]
  | ok gid => simp [bind, Except.bind, pure, Except.pure, eq_comm]

theorem new_eq_error {pks : List String} {t : UInt16} {own : String} {p : Panic} :
    new pks t own = .error p ↔ groupIdOf pks = .error p := by
  unfold new
  cases groupIdOf pks <;> simp [bind, Except.bind, pure, Except.pure]

theorem getIndex_isSome_iff (group : PublicKeyGroup) (pk : String) :
    (group.getIndex pk).isSome ↔ pk ∈ group.publicKeys := by
  simp [getIndex, List.findIdx?_isSome, List.any_eq_true]

/-- Without duplicates a key's index is its position. -/
theorem getIndex_of_nodup {group : PublicKeyGroup} (hnodup : group.publicKeys.Nodup) {i : Nat}
    {pk : String} (h : group.publicKeys[i]? = some pk) : group.getIndex pk = some (i + 1) := by
  obtain ⟨hlt, hpk⟩ := List.getElem?_eq_some_iff.mp h
  refine Option.map_eq_some_iff.mpr ⟨i, ?_, rfl⟩
  refine List.findIdx?_eq_some_iff_getElem.mpr ⟨hlt, by simpa using hpk, fun j hji => ?_⟩
  have hne := List.pairwise_iff_getElem.mp hnodup j i (by omega) hlt hji
  rw [← hpk]
  simpa using hne

end PublicKeyGroup

/-- A key share as the database keeps it: the secret part is a ciphertext
under the server's own key. -/
structure EncryptedStoredLocalShare where
  publicKeys : List String
  ownPublicKey : String
  encryptedShare : String
  deriving DecidableEq, Repr

end MpcServer

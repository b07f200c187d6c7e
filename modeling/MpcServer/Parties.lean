import Mathlib.Data.List.Nodup
import Mathlib.Data.Set.Function
import Mathlib.Order.Interval.Set.Defs
import MpcServer.Indices
import MpcServer.Shares

/-!
# Who is who in a keygen

The servers of one request number themselves, each on its own, by the place of
their key, count each other by the length of the list and address each other by
1-based lookup in the group they keep for the room. The three agree as long as
every server owns one place and sixteen bits hold them all.
-/

namespace MpcServer

open Rust Rust.Method Machine

variable {C : Crates}

/-- The public key a text stands for: hexadecimal of any encoding `parse_slice` takes. -/
def Crates.pointOf (C : Crates) (key : String) : Option C.PublicKey :=
  (C.hexDecode key).bind C.parsePublicKey

variable (C) in
/-- What was written in hexadecimal reads back, and so does a compressed key. -/
structure KeyLaws : Prop where
  hexDecode : ∀ bytes, C.hexDecode (C.hexEncode bytes) = some bytes
  parsePublicKey : ∀ pk, C.parsePublicKey (C.serializeCompressed pk) = some pk

/-- A server's text stands for its own key. -/
theorem KeyLaws.pointOf_ownKey (laws : KeyLaws C) (sk : C.SecretKey) :
    C.pointOf (C.ownKey sk) = some (C.publicKeyOf sk) := by
  rw [Crates.pointOf, Crates.ownKey, laws.hexDecode, Option.bind_some, laws.parsePublicKey]

theorem PublicKeyGroup.getPublicKey_eq_ok_iff {group : PublicKeyGroup} {index : Nat}
    {key : String} : group.getPublicKey index = .ok key ↔
      index ≠ 0 ∧ group.publicKeys[index - 1]? = some key := by
  refine ⟨getPublicKey_eq_ok, fun ⟨hpos, hkey⟩ => ?_⟩
  obtain ⟨hlt, rfl⟩ := List.getElem?_eq_some_iff.mp hkey
  have hrange : ¬ (index = 0 ∨ group.publicKeys.length < index) := by omega
  rw [getPublicKey, dif_neg hrange]
  rfl

namespace Coordinator

/-- The text stands for the server's own key. -/
def Owns (c : Coordinator C) (key : String) : Prop := C.pointOf key = some (C.publicKeyOf c.sk)

/-- The key `maybe_encrypt` finds for index `j` in the room. -/
def EncryptsTo (c : Coordinator C) (room : String) (j : Nat) (pk : C.PublicKey) : Prop :=
  ∃ group key, c.storedGroup room = some group ∧ group.getPublicKey j = .ok key ∧
    C.pointOf key = some pk

/-- What is encrypted for an index is encrypted to that key. -/
theorem encryptsTo_of_maybeEncrypt {c : Coordinator C} {amb : Ambient} {msg msg' : CoreMessage}
    {m : GenericProtocolMessage C.RawValue} {j : UInt16}
    (hm : C.genericMessage.read msg.message = some m) (hj : m.receiver = some j)
    (h : maybeEncrypt c.db amb msg = .ok msg') :
    ∃ pk ciphertext, c.EncryptsTo msg.room j.toNat pk ∧
      C.encrypt pk amb.seed (C.rawValueText m.body).toUTF8 = some ciphertext := by
  cases hextract : extractGroupId msg.room with
  | error e =>
      cases e
      simp [maybeEncrypt, hm, hj, hextract, bind, Except.bind] at h
  | ok groupId =>
      simp only [maybeEncrypt, hm, context_some, bind_eq_ok, Except.ok.injEq, exists_eq_left', hj,
        hextract, withContext_eq_ok] at h
      obtain ⟨group, hretrieve, encrypted, hencrypt, -⟩ := h
      have hstored := (storedGroup_of_retrieved hextract hretrieve).2
      unfold PublicKeyGroup.encrypt at hencrypt
      cases hkey : group.getPublicKey j.toNat with
      | error e => cases e; simp [hkey, bind, Except.bind] at hencrypt
      | ok key =>
          simp only [hkey, bind_eq_ok, Except.ok.injEq, exists_eq_left', context_eq_ok] at hencrypt
          obtain ⟨bytes, hbytes, pk, hpk, ciphertext, hcipher, -⟩ := hencrypt
          refine ⟨pk, ciphertext, ⟨group, key, hstored, hkey, ?_⟩, hcipher⟩
          rw [Crates.pointOf, hbytes, Option.bind_some, hpk]

/-- What a lookup by the room finds once a group has been saved: the entry that was
there before, or else the group, if the room leads to it and the write is carried out. -/
def foundAfterSave (c : Coordinator C) (ctx : Ctx) (group : PublicKeyGroup) (room : String) :
    Option PublicKeyGroup :=
  match extractGroupId room with
  | .error _ => none
  | .ok groupId =>
      match c.db groupId with
      | some blob => C.publicKeyGroup.read blob
      | none =>
          if groupId = group.groupId ∧ ctx.casOk = true then
            (C.publicKeyGroup.write group).bind C.publicKeyGroup.read
          else none

theorem storedGroup_of_stores {c : Coordinator C} {ctx : Ctx} {group : PublicKeyGroup}
    {db : Tree C} {written : Bool} (h : Stores c.db ctx group db written)
    (runners : String → Option Addr) (room : String) :
    ({ c with db, keygenRunners := runners } : Coordinator C).storedGroup room =
      c.foundAfterSave ctx group room := by
  unfold storedGroup foundAfterSave
  cases extractGroupId room with
  | error e => rfl
  | ok groupId =>
      simp only
      cases h with
      | written hwrite hcas =>
          rw [FirstWrite.put_apply]
          by_cases hid : groupId = group.groupId
          · subst hid
            cases c.db group.groupId <;> simp [hcas, hwrite]
          · cases c.db groupId <;> simp [hid]
      | lost hlost =>
          cases hentry : c.db groupId with
          | some blob => simp
          | none => rcases hlost with hnone | hcas <;> simp [*]

end Coordinator

/-- The servers that own the keys of a request, each as it takes the request up,
and the session each of them begins. -/
structure Parties (C : Crates) (req : KeygenRequest) (S : Type) where
  server : S → Coordinator C
  ctx : S → Ctx
  group : S → PublicKeyGroup
  index : S → UInt16
  state : S → C.Keygen
  own : ∀ s, (server s).pkStr = C.ownKey (server s).sk
  apart : ∀ s s', C.publicKeyOf (server s).sk = C.publicKeyOf (server s').sk → s = s'
  owned : ∀ key ∈ req.participantPublicKeys, ∃ s, (server s).Owns key
  begins : ∀ s, (server s).BeginsKeygen req (group s) (index s) (state s)

namespace Parties

variable {req : KeygenRequest} {S : Type}

/-- The server after it has handled the request. -/
def after (P : Parties C req S) (s : S) : Coordinator C :=
  ((Coordinator.handleKeygenRequest req (P.ctx s)).run (P.server s)).2.1

/-- The room of a party's session. -/
def room (P : Parties C req S) (s : S) : String := makeRoomId req.requestId (P.group s).groupId

/-- The servers make one group of it: their indices are the numbers from one to the
count of the keys, they use one room, one count and one threshold, and what one of
them encrypts for an index is for the server of that index. -/
structure Agree (P : Parties C req S) : Prop where
  indices : Set.BijOn (fun s => (P.index s).toNat) Set.univ
    (Set.Icc 1 req.participantPublicKeys.length)
  rooms : ∀ s s', P.room s = P.room s'
  counts : ∀ s, (P.group s).getN.toNat = req.participantPublicKeys.length
  thresholds : ∀ s s', (P.group s).getT = (P.group s').getT
  targets : ∀ s j, 1 ≤ j → j ≤ req.participantPublicKeys.length → ∀ s',
    (P.after s).EncryptsTo (P.room s) j (C.publicKeyOf (P.server s').sk) ↔
      (P.index s').toNat = j

/-- Every place is another server's, sixteen bits hold their number, and each server
finds under the room, once it has saved its group, the keys of the request. -/
structure Distinguished (P : Parties C req S) : Prop where
  distinct : (req.participantPublicKeys.map C.pointOf).Nodup
  short : req.participantPublicKeys.length < 2 ^ 16
  saved : ∀ s, ∃ group, (P.server s).foundAfterSave (P.ctx s) (P.group s) (P.room s) = some group ∧
    (group.publicKeys.take req.participantPublicKeys.length).map C.pointOf =
      req.participantPublicKeys.map C.pointOf

variable (P : Parties C req S)

theorem storedGroup_after (s : S) (room : String) :
    (P.after s).storedGroup room =
      (P.server s).foundAfterSave (P.ctx s) (P.group s) room := by
  have hends : Coordinator.KeygenRequested (P.server s) req (P.ctx s) _ _ _ :=
    Coordinator.handleKeygenRequest_cases req (P.ctx s) (P.server s)
  unfold after
  generalize ((Coordinator.handleKeygenRequest req (P.ctx s)).run (P.server s)).1 = r,
    ((Coordinator.handleKeygenRequest req (P.ctx s)).run (P.server s)).2.1 = c',
    ((Coordinator.handleKeygenRequest req (P.ctx s)).run (P.server s)).2.2 = os at hends ⊢
  cases hends with
  | refused hnone => exact absurd (P.begins s) (hnone _ _ _)
  | began hbegins hstores =>
      obtain ⟨rfl, -, -⟩ := (P.begins s).unique hbegins
      exact Coordinator.storedGroup_of_stores hstores _ room

/-- The sessions differ in the own key alone. -/
theorem group_eq (s : S) : ∃ gid, PublicKeyGroup.groupIdOf req.participantPublicKeys = .ok gid ∧
    P.group s = ⟨gid, req.threshold.toUInt16, req.participantPublicKeys, (P.server s).pkStr⟩ :=
  (P.begins s).group_eq

theorem rooms_agree (s s' : S) : P.room s = P.room s' := by
  obtain ⟨gid, hgid, heq⟩ := P.group_eq s
  obtain ⟨gid', hgid', heq'⟩ := P.group_eq s'
  cases hgid.symm.trans hgid'
  rw [room, room, heq, heq']

theorem listed (s : S) : (P.server s).pkStr ∈ req.participantPublicKeys := (P.begins s).index.1

theorem getElem?_place (s : S) :
    req.participantPublicKeys[req.participantPublicKeys.idxOf (P.server s).pkStr]? =
      some (P.server s).pkStr := List.getElem?_idxOf (P.listed s)

theorem pointOf_pkStr (laws : KeyLaws C) (s : S) :
    C.pointOf (P.server s).pkStr = some (C.publicKeyOf (P.server s).sk) := by
  rw [P.own s, laws.pointOf_ownKey]

/-- With room for the count, the index is the place of the own key. -/
theorem index_eq (hshort : req.participantPublicKeys.length < 2 ^ 16) (s : S) :
    (P.index s).toNat = req.participantPublicKeys.idxOf (P.server s).pkStr + 1 := by
  have hplace := List.idxOf_lt_length_of_mem (P.listed s)
  rw [(P.begins s).index.2]
  exact toNat_ofNat_eq_iff.mpr (by omega)

variable {P}

/-- Where each place is another server's, a server that owns a place has its own key
there. -/
theorem Distinguished.place (laws : KeyLaws C) (h : P.Distinguished) {s : S} {k : Nat} {key : String}
    (hk : req.participantPublicKeys[k]? = some key) (hown : (P.server s).Owns key) :
    req.participantPublicKeys.idxOf (P.server s).pkStr = k := by
  have hlt : req.participantPublicKeys.idxOf (P.server s).pkStr <
      (req.participantPublicKeys.map C.pointOf).length := by
    rw [List.length_map]
    exact List.idxOf_lt_length_of_mem (P.listed s)
  refine (List.getElem?_inj hlt h.distinct).mp ?_
  rw [List.getElem?_map, List.getElem?_map, P.getElem?_place s, hk, Option.map_some,
    Option.map_some, P.pointOf_pkStr laws s, hown]

/-- A server has the place exactly if it owns it. -/
theorem Distinguished.index_eq_iff (laws : KeyLaws C) (h : P.Distinguished) {s : S} {k : Nat}
    {key : String} (hk : req.participantPublicKeys[k]? = some key) :
    (P.index s).toNat = k + 1 ↔ (P.server s).Owns key := by
  rw [P.index_eq h.short s, Nat.add_right_cancel_iff]
  constructor
  · intro hplace
    have hsame := P.getElem?_place s
    rw [hplace, hk] at hsame
    obtain rfl := Option.some.inj hsame
    exact P.pointOf_pkStr laws s
  · intro hown
    exact h.place laws hk hown

theorem Distinguished.agree (laws : KeyLaws C) (h : P.Distinguished) : P.Agree where
  indices := by
    refine ⟨fun s _ => ?_, fun s _ s' _ heq => ?_, fun j hj => ?_⟩
    · have hplace := List.idxOf_lt_length_of_mem (P.listed s)
      show (P.index s).toNat ∈ Set.Icc 1 req.participantPublicKeys.length
      rw [P.index_eq h.short s, Set.mem_Icc]
      omega
    · change (P.index s).toNat = (P.index s').toNat at heq
      rw [P.index_eq h.short s, P.index_eq h.short s', Nat.add_right_cancel_iff] at heq
      have hsame := P.getElem?_place s
      -- two servers at one place hold one key
      rw [heq, P.getElem?_place s'] at hsame
      have hpoint := P.pointOf_pkStr laws s'
      rw [Option.some.inj hsame, P.pointOf_pkStr laws s] at hpoint
      exact P.apart s s' (Option.some.inj hpoint)
    · obtain ⟨hpos, hle⟩ := Set.mem_Icc.mp hj
      have hlt : j - 1 < req.participantPublicKeys.length := by omega
      have hk := List.getElem?_eq_getElem hlt
      obtain ⟨s, hs⟩ := P.owned _ (List.getElem_mem hlt)
      refine ⟨s, trivial, ?_⟩
      show (P.index s).toNat = j
      rw [(h.index_eq_iff laws hk).mpr hs]
      omega
  rooms := P.rooms_agree
  counts s := by
    obtain ⟨gid, -, heq⟩ := P.group_eq s
    rw [heq]
    exact toNat_ofNat_eq_iff.mpr h.short
  thresholds s s' := by
    obtain ⟨gid, -, heq⟩ := P.group_eq s
    obtain ⟨gid', -, heq'⟩ := P.group_eq s'
    rw [heq, heq']
    rfl
  targets s j hpos hle s' := by
    obtain ⟨group, hfound, hkeys⟩ := h.saved s
    have hstored : (P.after s).storedGroup (P.room s) = some group := by
      rw [P.storedGroup_after, hfound]
    have hlt : j - 1 < req.participantPublicKeys.length := by omega
    have hk := List.getElem?_eq_getElem hlt
    -- at the place the stored group lists a text of the same key
    have hplace := congrArg (·[j - 1]?) hkeys
    simp only [List.getElem?_map, List.getElem?_take_of_lt hlt, hk, Option.map_some] at hplace
    obtain ⟨key, hkey, hpoint⟩ := Option.map_eq_some_iff.mp hplace
    have hget : group.getPublicKey j = .ok key :=
      PublicKeyGroup.getPublicKey_eq_ok_iff.mpr ⟨by omega, hkey⟩
    rw [show j = j - 1 + 1 by omega, h.index_eq_iff laws hk, Coordinator.Owns, ← hpoint,
      show j - 1 + 1 = j by omega]
    constructor
    · rintro ⟨group', key', hstored', hget', hpoint'⟩
      cases hstored.symm.trans hstored'
      cases hget.symm.trans hget'
      exact hpoint'
    · intro hown
      exact ⟨group, key, hstored, hget, hown⟩

/-- Where the servers make one group, the place a server owns is its index. -/
theorem Agree.index_of_owner (laws : KeyLaws C) (h : P.Agree)
    (hshort : req.participantPublicKeys.length < 2 ^ 16) {s : S} {k : Nat} {key : String}
    (hk : req.participantPublicKeys[k]? = some key) (hown : (P.server s).Owns key) :
    (P.index s).toNat = k + 1 := by
  have hlt := (List.getElem?_eq_some_iff.mp hk).1
  obtain ⟨s', -, hs'⟩ := h.indices.surjOn (Set.mem_Icc.mpr ⟨by omega, hlt⟩ : k + 1 ∈ Set.Icc 1 _)
  have hs' : (P.index s').toNat = k + 1 := hs'
  have hplace := P.index_eq hshort s'
  rw [hs', Nat.add_right_cancel_iff] at hplace
  -- the server of that index has its own key there, and owns it with `s`
  have hsame := P.getElem?_place s'
  rw [← hplace, hk] at hsame
  obtain rfl := Option.some.inj hsame
  have hpoint := (P.pointOf_pkStr laws s').symm.trans hown
  rw [P.apart s s' (Option.some.inj hpoint).symm]
  exact hs'

theorem Agree.short (h : P.Agree) : req.participantPublicKeys.length < 2 ^ 16 := by
  by_cases hempty : req.participantPublicKeys = []
  · rw [hempty]
    decide
  · obtain ⟨key, hkey⟩ := List.exists_mem_of_ne_nil _ hempty
    obtain ⟨s, -⟩ := P.owned key hkey
    have hcount := h.counts s
    obtain ⟨gid, -, heq⟩ := P.group_eq s
    rw [heq] at hcount
    exact toNat_ofNat_eq_iff.mp hcount

theorem Agree.distinct (laws : KeyLaws C) (h : P.Agree) :
    (req.participantPublicKeys.map C.pointOf).Nodup := by
  refine List.nodup_iff_getElem?_ne_getElem?.mpr fun a b hab hb heq => ?_
  rw [List.length_map] at hb
  have ha : a < req.participantPublicKeys.length := by omega
  have hka := List.getElem?_eq_getElem ha
  have hkb := List.getElem?_eq_getElem hb
  simp only [List.getElem?_map, hka, hkb, Option.map_some, Option.some.injEq] at heq
  obtain ⟨s, hs⟩ := P.owned _ (List.getElem_mem ha)
  have hfirst := h.index_of_owner laws h.short hka hs
  have hsecond := h.index_of_owner laws h.short hkb (heq.symm.trans hs)
  omega

theorem Agree.saved (laws : KeyLaws C) (h : P.Agree) (s : S) :
    ∃ group, (P.server s).foundAfterSave (P.ctx s) (P.group s) (P.room s) = some group ∧
      (group.publicKeys.take req.participantPublicKeys.length).map C.pointOf =
        req.participantPublicKeys.map C.pointOf := by
  have hstored := P.storedGroup_after s (P.room s)
  -- what stands at a place of the stored group is a text of the place's owner
  have hplace : ∀ (k : Nat) (key : String), req.participantPublicKeys[k]? = some key →
      ∃ (group : PublicKeyGroup) (key' : String),
        (P.after s).storedGroup (P.room s) = some group ∧ group.publicKeys[k]? = some key' ∧
          C.pointOf key' = C.pointOf key := by
    intro k key hk
    have hlt := (List.getElem?_eq_some_iff.mp hk).1
    obtain ⟨s', hs'⟩ := P.owned key (List.mem_of_getElem? hk)
    have hindex := h.index_of_owner laws h.short hk hs'
    obtain ⟨group, key', hgroup, hget, hpoint⟩ :=
      (h.targets s (k + 1) (by omega) hlt s').mpr hindex
    have hkey' := (PublicKeyGroup.getPublicKey_eq_ok_iff.mp hget).2
    exact ⟨group, key', hgroup, hkey', hpoint.trans hs'.symm⟩
  obtain ⟨group, -, hgroup, -, -⟩ := hplace _ _ (P.getElem?_place s)
  -- place by place; beyond the participants both lists end
  refine ⟨group, hstored ▸ hgroup, List.ext_getElem? fun k => ?_⟩
  by_cases hlt : k < req.participantPublicKeys.length
  · have hk := List.getElem?_eq_getElem hlt
    obtain ⟨group', key', hgroup', hkey', hpoint⟩ := hplace k _ hk
    cases hgroup.symm.trans hgroup'
    rw [List.getElem?_map, List.getElem?_map, List.getElem?_take_of_lt hlt, hkey', hk,
      Option.map_some, Option.map_some, hpoint]
  · have htake : (group.publicKeys.take req.participantPublicKeys.length)[k]? = none := by
      rw [List.getElem?_take, if_neg hlt]
    rw [List.getElem?_map, List.getElem?_map, htake, List.getElem?_eq_none (by omega)]

/-- **When the servers of a keygen make one group.** Let the owners of the listed
keys all start a player for a request. Their indices are the numbers from one to the
count of the keys, and a message for an index is for the server of that index, exactly
if every place is another server's, sixteen bits hold the count, and each server finds
the keys of the request under its room. -/
theorem agree_iff (laws : KeyLaws C) (P : Parties C req S) :
    (P.Agree ↔ P.Distinguished) ∧
      ∀ s amb (msg msg' : CoreMessage) m j, C.genericMessage.read msg.message = some m →
        m.receiver = some j → maybeEncrypt (P.after s).db amb msg = .ok msg' →
          ∃ pk ciphertext, (P.after s).EncryptsTo msg.room j.toNat pk ∧
            C.encrypt pk amb.seed (C.rawValueText m.body).toUTF8 = some ciphertext := by
  refine ⟨⟨fun h => ?_, fun h => h.agree laws⟩, fun s amb msg msg' m j hm hj hencrypt => ?_⟩
  · exact ⟨h.distinct laws, h.short, h.saved laws⟩
  · exact Coordinator.encryptsTo_of_maybeEncrypt hm hj hencrypt

end Parties

namespace Sample

theorem keyLaws (sc : Scenario) : KeyLaws (crates sc) where
  hexDecode := Hex.decode_encode
  parsePublicKey := parsePublicKey_keyBytes

/-- The server of a party, before it has done anything. -/
def coordinatorOf (p : Party) : Coordinator (crates keygen) :=
  (Node.init (C := crates keygen) p nothing).coordinator

theorem owns_keyText (p : Party) : (coordinatorOf p).Owns p.keyText := by
  rw [← p.encode_keyBytes]
  exact (keyLaws keygen).pointOf_ownKey p

/-- Alice and Bob. -/
def either : Bool → Party
  | true => .alice
  | false => .bob

theorem either_owns (key : String) (h : key ∈ keyTexts [.alice, .bob]) :
    ∃ s, (coordinatorOf (either s)).Owns key := by
  simp only [keyTexts, List.map_cons, List.map_nil, List.mem_cons, List.not_mem_nil,
    or_false] at h
  rcases h with rfl | rfl
  · exact ⟨true, owns_keyText .alice⟩
  · exact ⟨false, owns_keyText .bob⟩

theorem either_apart : ∀ s s', either s = either s' → s = s' := by decide

/-- Alice and Bob, each with its own server. -/
def pair : Parties (crates keygen) (keygenOf "k1" [.alice, .bob] 1) Bool where
  server s := coordinatorOf (either s)
  ctx _ := firstCtx
  group s := { pairsGroup with ownPublicKey := (either s).keyText }
  index | true => 1 | false => 2
  state | true => Rounds.new 1 1 2 1 | false => Rounds.new 2 1 2 1
  own _ := rfl
  apart := either_apart
  owned := either_owns
  begins
    | true => ⟨by decide, by decide +kernel, rfl⟩
    | false => ⟨by decide, by decide +kernel, rfl⟩

/-- Alice and Bob make one group. -/
theorem pair_agrees : pair.Agree := by
  refine (Parties.agree_iff (keyLaws keygen) pair).1.mpr ⟨?_, by decide, fun s => ?_⟩
  · have hpoints : (keyTexts [.alice, .bob]).map (crates keygen).pointOf =
        [some Party.alice, some Party.bob] := by
      rw [keyTexts, List.map_map]
      exact congrArg₂ (fun a b => [a, b]) (owns_keyText .alice) (owns_keyText .bob)
    have hnodup : [some Party.alice, some Party.bob].Nodup := by decide
    exact (congrArg List.Nodup hpoints).mpr hnodup
  · cases s <;> exact ⟨_, rfl, rfl⟩

/-- Alice's key, listed twice. -/
def aliceTwice : Parties (crates keygen) (keygenOf "k1" [.alice, .alice, .bob] 1) Bool where
  server s := coordinatorOf (either s)
  ctx _ := firstCtx
  group s :=
    { groupId := "73ee5cd673ee5cd6c20e0c08", t := 1
      publicKeys := keyTexts [.alice, .alice, .bob], ownPublicKey := (either s).keyText }
  index | true => 1 | false => 3
  state | true => Rounds.new 1 1 3 1 | false => Rounds.new 3 1 3 1
  own _ := rfl
  apart := either_apart
  owned key h := either_owns key (by simpa [keygenOf, keyTexts] using h)
  begins
    | true => ⟨by decide, by decide +kernel, rfl⟩
    | false => ⟨by decide, by decide +kernel, rfl⟩

/-- Both start a player, and nobody is party 2. -/
theorem aliceTwice_disagrees : KeyLaws (crates keygen) ∧ ¬ aliceTwice.Agree := by
  refine ⟨keyLaws keygen, fun h => ?_⟩
  obtain ⟨s, -, hs⟩ := h.indices.surjOn (Set.mem_Icc.mpr ⟨by decide, by decide⟩ : 2 ∈ Set.Icc 1 3)
  cases s <;> exact absurd hs (by decide)

end Sample

end MpcServer

import MpcServer.Actors.Identities
import MpcServer.Sample

/-!
# What a room says about its sessions

The room is all that the parties of a session agree on. It is made of the
request id and of eight bytes a participant, and it says as much as that and no
more: the kind of the session, its threshold, the key, the hash and the order of
the signers are each server's own.
-/

namespace MpcServer

open Rust Rust.Method Machine

variable {C : Crates}

/-- What a server knows of a session when it registers it. -/
inductive Parameters
  | keygen (req : KeygenRequest)
  | sign (req : EnrichedSignRequest)
  deriving DecidableEq, Repr

namespace Parameters

/-- The id of the request. -/
def requestId : Parameters → String
  | .keygen req => req.requestId
  | .sign req => req.inner.requestId

/-- The keys of the parties. -/
def participants : Parameters → List String
  | .keygen req => req.participantPublicKeys
  | .sign req => req.inner.participantPublicKeys

end Parameters

namespace Node

/-- The sessions that were registered, each with its room. -/
def registered (n : Node C) : List (String × Parameters) :=
  n.identitiesKG.map (fun i => (i.room, .keygen i.input)) ++
    n.identitiesO.map fun i => (i.room, .sign i.input)

/-- The room is made of the request's id and the id of its participants. -/
def RoomOf (x : String × Parameters) : Prop :=
  ∃ groupId, PublicKeyGroup.groupIdOf x.2.participants = .ok groupId ∧
    x.1 = makeRoomId x.2.requestId groupId

theorem roomOf_step {n t : Node C} {e : Event} {o : List (Obs C)} (hs : Steps n e t o)
    (h : ∀ x ∈ n.registered, RoomOf x) : ∀ x ∈ t.registered, RoomOf x := by
  have hgrows := hs.grows
  have hold := List.forall_mem_append.mp h
  unfold registered
  rw [hgrows.keygen, hgrows.offline, List.map_append, List.map_append]
  cases hs.begins with
  | nothing hKG hO =>
      simp only [hKG, hO, List.map_nil, List.append_nil]
      exact h
  | keygen _ hbegins hKG hO =>
      obtain ⟨gid, hgid, hgroup⟩ := PublicKeyGroup.new_eq_ok.mp hbegins.1
      simp only [hKG, hO, List.map_nil, List.append_nil]
      refine List.forall_mem_append.mpr ⟨List.forall_mem_append.mpr ⟨hold.1, ?_⟩, hold.2⟩
      exact List.forall_mem_singleton.mpr ⟨gid, hgid, by rw [hgroup]; rfl⟩
  | sign _ hgroups _ _ hKG hO =>
      obtain ⟨gid, hgid, hgroup⟩ := PublicKeyGroup.new_eq_ok.mp hgroups.2.2
      simp only [hKG, hO, List.map_nil, List.append_nil]
      refine List.forall_mem_append.mpr ⟨hold.1, List.forall_mem_append.mpr ⟨hold.2, ?_⟩⟩
      exact List.forall_mem_singleton.mpr ⟨gid, hgid, by rw [hgroup]; rfl⟩

theorem roomOf_registered {sk : C.SecretKey} {db : Tree C} {os : List (Obs C)} {n : Node C}
    (hrun : Run step anyStep (init sk db) os n) : ∀ x ∈ n.registered, RoomOf x :=
  hrun.invariant (fun _ n => ∀ x ∈ n.registered, RoomOf x) (by simp [registered, init,
    identitiesKG, identitiesO]) fun _ h _ hs => roomOf_step (step_cases hs) h

/-- The keys' pieces hold no separator. -/
def SeparatorFree (keys : List String) : Prop :=
  ∀ pk ∈ keys, ∀ piece, byteSlice pk 2 10 = .ok piece → roomSeparator ∉ piece.toList

theorem SeparatorFree.groupId {keys : List String} {gid : String} (h : SeparatorFree keys)
    (hgid : PublicKeyGroup.groupIdOf keys = .ok gid) : roomSeparator ∉ gid.toList := by
  have hpieces : ∀ pk ∈ keys, ∃ piece,
      byteSlice pk 2 10 = .ok piece ∧ roomSeparator ∉ piece.toList := by
    intro pk hpk
    obtain ⟨piece, hpiece, -⟩ := PublicKeyGroup.infix_groupIdOf hgid hpk
    exact ⟨piece, hpiece, h pk hpk piece hpiece⟩
  obtain ⟨gid', hgid', hfree⟩ := PublicKeyGroup.groupIdOf_of_pieces hpieces
  cases hgid.symm.trans hgid'
  exact hfree

/-- **What a room says.** Two sessions registered by any two servers, with
separator-free pieces, have the same room exactly if their requests have the same
id and participants that agree in number and, position by position, in bytes two
to ten of their keys. -/
theorem room_eq_iff {sk₁ sk₂ : C.SecretKey} {db₁ db₂ : Tree C} {os₁ os₂ : List (Obs C)}
    {n₁ n₂ : Node C} (hrun₁ : Run step anyStep (init sk₁ db₁) os₁ n₁)
    (hrun₂ : Run step anyStep (init sk₂ db₂) os₂ n₂) {room₁ room₂ : String}
    {params₁ params₂ : Parameters} (h₁ : (room₁, params₁) ∈ n₁.registered)
    (h₂ : (room₂, params₂) ∈ n₂.registered) (hfree₁ : SeparatorFree params₁.participants)
    (hfree₂ : SeparatorFree params₂.participants) :
    room₁ = room₂ ↔ params₁.requestId = params₂.requestId ∧
      PublicKeyGroup.pieces params₁.participants = PublicKeyGroup.pieces params₂.participants := by
  obtain ⟨gid₁, hgid₁, hroom₁⟩ := roomOf_registered hrun₁ _ h₁
  obtain ⟨gid₂, hgid₂, hroom₂⟩ := roomOf_registered hrun₂ _ h₂
  dsimp only at hgid₁ hroom₁ hgid₂ hroom₂
  rw [hroom₁, hroom₂, makeRoomId_inj (hfree₁.groupId hgid₁) (hfree₂.groupId hgid₂)]
  constructor
  · rintro ⟨hid, rfl⟩
    exact ⟨hid, PublicKeyGroup.pieces_of_groupIdOf hgid₁ hgid₂⟩
  · rintro ⟨hid, hpieces⟩
    have hsame := PublicKeyGroup.groupIdOf_congr hpieces
    rw [hgid₁, hgid₂] at hsame
    exact ⟨hid, Except.ok.inj hsame⟩

end Node

namespace Sample

theorem separatorFree_keyTexts (parties : List Party) :
    Node.SeparatorFree (keyTexts parties) := by
  intro pk hpk piece hpiece
  obtain ⟨p, -, rfl⟩ := List.mem_map.mp hpk
  obtain ⟨piece', hpiece', hfree⟩ := p.byteSlice_keyText
  cases hpiece.symm.trans hpiece'
  exact hfree

/-- Alice's node. -/
def alicesNode (db : String → Option Blob) : Node (crates keygen) :=
  Node.init (C := crates keygen) Party.alice db

/-- The server registers the session when it takes up the request. -/
def takesUp (n : Node (crates keygen)) (req : Request) (x : String × Parameters) : Bool :=
  (exec Node.step n [.request req, .mail allWell]).any fun r => decide (x ∈ r.1.registered)

theorem registered_of_takesUp {n : Node (crates keygen)} (req : Request)
    {x : String × Parameters} (h : takesUp n req x = true) :
    ∃ os m, Run Node.step anyStep n os m ∧ x ∈ m.registered := by
  obtain ⟨os, m, hrun, hmem⟩ := Run.ofTest Node.step anyStep n _ _ h (admits_anyStep _ _)
  exact ⟨os, m, hrun, of_decide_eq_true hmem⟩

/-- Two requests of different ids, one at each server. -/
theorem room_eq_iff_of_keygens :
    ∃ os₁ n₁ os₂ n₂, Run Node.step anyStep (bobsNode keygen nothing) os₁ n₁ ∧
      Run Node.step anyStep (alicesNode nothing) os₂ n₂ ∧
      ("k1@73ee5cd6c20e0c08", .keygen (keygenOf "k1" [.alice, .bob] 1)) ∈ n₁.registered ∧
      ("k2@73ee5cd6c20e0c08", .keygen (keygenOf "k2" [.alice, .bob] 1)) ∈ n₂.registered ∧
      ("k1@73ee5cd6c20e0c08" = "k2@73ee5cd6c20e0c08" ↔ "k1" = "k2" ∧
        PublicKeyGroup.pieces (keyTexts [.alice, .bob]) =
          PublicKeyGroup.pieces (keyTexts [.alice, .bob])) := by
  obtain ⟨os₁, n₁, hrun₁, hmem₁⟩ := registered_of_takesUp
    (n := bobsNode keygen nothing) (.keygen (keygenOf "k1" [.alice, .bob] 1))
    (show takesUp _ _ ("k1@73ee5cd6c20e0c08", .keygen (keygenOf "k1" [.alice, .bob] 1)) = true by
      decide +kernel)
  obtain ⟨os₂, n₂, hrun₂, hmem₂⟩ := registered_of_takesUp
    (n := alicesNode nothing) (.keygen (keygenOf "k2" [.alice, .bob] 1))
    (show takesUp _ _ ("k2@73ee5cd6c20e0c08", .keygen (keygenOf "k2" [.alice, .bob] 1)) = true by
      decide +kernel)
  exact ⟨os₁, n₁, os₂, n₂, hrun₁, hrun₂, hmem₁, hmem₂,
    Node.room_eq_iff hrun₁ hrun₂ hmem₁ hmem₂ (separatorFree_keyTexts _)
      (separatorFree_keyTexts _)⟩

/-- Sessions of two servers meet in a room. -/
def Meet (n₁ n₂ : Node (crates keygen)) (params₁ params₂ : Parameters) : Prop :=
  ∃ os₁ m₁ os₂ m₂ room, Run Node.step anyStep n₁ os₁ m₁ ∧ Run Node.step anyStep n₂ os₂ m₂ ∧
    (room, params₁) ∈ m₁.registered ∧ (room, params₂) ∈ m₂.registered

theorem meet_of_takesUp (room : String) {n₁ n₂ : Node (crates keygen)} (req₁ req₂ : Request)
    {params₁ params₂ : Parameters} (h₁ : takesUp n₁ req₁ (room, params₁) = true)
    (h₂ : takesUp n₂ req₂ (room, params₂) = true) : Meet n₁ n₂ params₁ params₂ := by
  obtain ⟨os₁, m₁, hrun₁, hmem₁⟩ := registered_of_takesUp req₁ h₁
  obtain ⟨os₂, m₂, hrun₂, hmem₂⟩ := registered_of_takesUp req₂ h₂
  exact ⟨os₁, m₁, os₂, m₂, room, hrun₁, hrun₂, hmem₁, hmem₂⟩

/-- Another key of Alice's and Bob's, generated in the other order. -/
def otherKey : String := Hex.encode ⟨(2 :: List.replicate 32 9).toArray⟩

/-- A tree with a share of another key. -/
def sharedOther (key : String) : Option Blob :=
  if key = otherKey then
    some (.share { publicKeys := keyTexts [.bob, .alice], ownPublicKey := Party.bob.keyText
                   encryptedShare := Hex.encode ⟨#[Party.bob.code, 0, 1, 2, 9]⟩ })
  else none

/-- A sign request for that key under an id that a keygen has. -/
def signOther : SignRequest :=
  { requestId := "k1", participantPublicKeys := keyTexts [.alice, .bob], publicKey := otherKey
    hash := "02" }

/-- A keygen whose group id has a separator in it. -/
def withSeparator : KeygenRequest :=
  { requestId := "k", threshold := 1
    participantPublicKeys := "020000000@" :: keyTexts [.bob, .alice] }

/-- A room leaves open the threshold and the first bytes of the keys, the kind,
the signers' order, the key and the hash; with a separator in a key it leaves
open the number of participants as well. -/
theorem sessions_meet_unlike :
    Meet (bobsNode keygen nothing) (alicesNode nothing)
        (.keygen (keygenOf "k1" [.aliceTwin, .bob, .carol] 1))
        (.keygen (keygenOf "k1" [.alice, .bob, .carol] 2)) ∧
      Meet (bobsNode keygen nothing) (bobsNode keygen shared)
        (.keygen (keygenOf "k1" [.alice, .bob] 1))
        (.sign { inner := signOf "k1" [.alice, .bob] "01", room := "k1@73ee5cd6c20e0c08", i := 2
                 sL := [1, 2] }) ∧
      Meet (bobsNode keygen shared) (bobsNode keygen sharedOther)
        (.sign { inner := signOf "k1" [.alice, .bob] "01", room := "k1@73ee5cd6c20e0c08", i := 2
                 sL := [1, 2] })
        (.sign { inner := signOther, room := "k1@73ee5cd6c20e0c08", i := 2, sL := [2, 1] }) ∧
      Meet (bobsNode keygen nothing) (bobsNode keygen nothing) (.keygen withSeparator)
        (.keygen (keygenOf "k@0000000" [.bob, .alice] 1)) := by
  refine ⟨?_, ?_, ?_, ?_⟩
  · exact meet_of_takesUp "k1@73ee5cd6c20e0c08d0639e47"
      (.keygen (keygenOf "k1" [.aliceTwin, .bob, .carol] 1))
      (.keygen (keygenOf "k1" [.alice, .bob, .carol] 2)) (by decide +kernel) (by decide +kernel)
  · exact meet_of_takesUp "k1@73ee5cd6c20e0c08" (.keygen (keygenOf "k1" [.alice, .bob] 1))
      (.sign (signOf "k1" [.alice, .bob] "01")) (by decide +kernel) (by decide +kernel)
  · exact meet_of_takesUp "k1@73ee5cd6c20e0c08" (.sign (signOf "k1" [.alice, .bob] "01"))
      (.sign signOther) (by decide +kernel) (by decide +kernel)
  · exact meet_of_takesUp "k@0000000@c20e0c0873ee5cd6" (.keygen withSeparator)
      (.keygen (keygenOf "k@0000000" [.bob, .alice] 1)) (by decide +kernel) (by decide +kernel)

end Sample

end MpcServer

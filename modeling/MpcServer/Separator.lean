import MpcServer.Admission
import MpcServer.Groups
import MpcServer.RoomParameters

/-!
# What a room is read as

A room is made by joining the request id and the group id, and read by taking
the second piece between separators. Nothing keeps a client from putting a
separator into the id, or into a key, and then the second piece is another one.
-/

namespace MpcServer

open Rust Rust.Method Machine

variable {C : Crates}

/-- No key brings a separator into the group id; the request id brings none
into the room, or names that very group behind its first one. -/
structure Legible (requestId : String) (keys : List String) (groupId : String) : Prop where
  keys : Node.SeparatorFree keys
  request : roomSeparator ∉ requestId.toList ∨ ∃ before, roomSeparator ∉ before.toList ∧
    (requestId = makeRoomId before groupId ∨
      ∃ rest, requestId = makeRoomId (makeRoomId before groupId) rest)

theorem extractGroupId_eq_ok {room groupId : String} :
    extractGroupId room = .ok groupId ↔ (splitChar roomSeparator room)[1]? = some groupId := by
  unfold extractGroupId
  split
  · rename_i heq
    simp [heq]
  · rename_i hshort
    constructor
    · rintro ⟨⟩
    · intro h
      match hpieces : splitChar roomSeparator room with
      | [] => simp [hpieces] at h
      | [_] => simp [hpieces] at h
      | a :: b :: rest => exact absurd hpieces (hshort a b rest)

/-- Without a separator in the request id the second piece begins the group id. -/
theorem extractGroupId_of_notMem {requestId : String} (h : roomSeparator ∉ requestId.toList)
    (groupId asked : String) : extractGroupId (makeRoomId requestId groupId) = .ok asked ↔
      (splitChar roomSeparator groupId).head? = some asked := by
  rw [extractGroupId_eq_ok, makeRoomId, splitChar_append, splitChar_of_notMem h]
  cases splitChar roomSeparator groupId <;> rfl

/-- With one the second piece begins what stands behind it. -/
theorem extractGroupId_of_join {before : String} (h : roomSeparator ∉ before.toList)
    (behind groupId asked : String) :
    extractGroupId (makeRoomId (makeRoomId before behind) groupId) = .ok asked ↔
      (splitChar roomSeparator behind).head? = some asked := by
  rw [extractGroupId_eq_ok, makeRoomId, makeRoomId, splitChar_append, splitChar_append,
    splitChar_of_notMem h]
  cases hpieces : splitChar roomSeparator behind with
  | nil => exact absurd hpieces (splitChar_ne_nil _ _)
  | cons piece rest => rfl

theorem makeRoomId_assoc (a b c : String) :
    makeRoomId (makeRoomId a b) c = makeRoomId a (makeRoomId b c) := by
  simp only [makeRoomId, String.append_assoc]

theorem exists_makeRoomId {requestId : String} (h : roomSeparator ∈ requestId.toList) :
    ∃ before behind, roomSeparator ∉ before.toList ∧ requestId = makeRoomId before behind := by
  obtain ⟨before, behind, hlist, hfree⟩ := List.eq_append_cons_of_mem h
  refine ⟨String.ofList before, String.ofList behind, by simpa using hfree, ?_⟩
  apply String.toList_inj.mp
  simpa [makeRoomId] using hlist

/-- The room of an admitted request is never refused; what is asked for is some id. -/
theorem extractGroupId_isOk (requestId groupId : String) :
    ∃ asked, extractGroupId (makeRoomId requestId groupId) = .ok asked := by
  have hsome (text : String) : ∃ piece, (splitChar roomSeparator text).head? = some piece := by
    cases hpieces : splitChar roomSeparator text with
    | nil => exact absurd hpieces (splitChar_ne_nil _ _)
    | cons piece rest => exact ⟨piece, rfl⟩
  by_cases hmem : roomSeparator ∈ requestId.toList
  · obtain ⟨before, behind, hfree, rfl⟩ := exists_makeRoomId hmem
    obtain ⟨asked, hasked⟩ := hsome behind
    exact ⟨asked, (extractGroupId_of_join hfree behind groupId asked).mpr hasked⟩
  · obtain ⟨asked, hasked⟩ := hsome groupId
    exact ⟨asked, (extractGroupId_of_notMem hmem groupId asked).mpr hasked⟩

theorem separatorFree_iff {keys : List String} {groupId : String}
    (hgid : PublicKeyGroup.groupIdOf keys = .ok groupId) :
    Node.SeparatorFree keys ↔ roomSeparator ∉ groupId.toList := by
  refine ⟨fun h => h.groupId hgid, fun hfree pk hpk piece hpiece hmem => ?_⟩
  obtain ⟨piece', hpiece', hpart⟩ := PublicKeyGroup.infix_groupIdOf hgid hpk
  cases hpiece.symm.trans hpiece'
  exact hfree (hpart.subset hmem)

/-- **A room reads back as its group exactly if it is legible.** -/
theorem extractGroupId_makeRoomId_iff {keys : List String} {groupId : String}
    (hgid : PublicKeyGroup.groupIdOf keys = .ok groupId) (requestId : String) :
    extractGroupId (makeRoomId requestId groupId) = .ok groupId ↔
      Legible requestId keys groupId := by
  constructor
  · intro hread
    by_cases hmem : roomSeparator ∈ requestId.toList
    · obtain ⟨before, behind, hbefore, rfl⟩ := exists_makeRoomId hmem
      rw [extractGroupId_of_join hbefore, head?_splitChar] at hread
      obtain ⟨hfree, hbehind⟩ := hread
      refine ⟨(separatorFree_iff hgid).mpr hfree, .inr ⟨before, hbefore, ?_⟩⟩
      rcases hbehind with rfl | ⟨rest, rfl⟩
      · exact .inl rfl
      · exact .inr ⟨rest, (makeRoomId_assoc before groupId rest).symm⟩
    · rw [extractGroupId_of_notMem hmem, head?_splitChar] at hread
      exact ⟨(separatorFree_iff hgid).mpr hread.1, .inl hmem⟩
  · rintro ⟨hkeys, hrequest⟩
    have hfree := (separatorFree_iff hgid).mp hkeys
    rcases hrequest with hmem | ⟨before, hbefore, rfl | ⟨rest, rfl⟩⟩
    · rw [extractGroupId_of_notMem hmem, head?_splitChar]
      exact ⟨hfree, .inl rfl⟩
    · rw [extractGroupId_of_join hbefore, head?_splitChar]
      exact ⟨hfree, .inl rfl⟩
    · rw [makeRoomId_assoc before, extractGroupId_of_join hbefore, head?_splitChar]
      exact ⟨hfree, .inr ⟨rest, rfl⟩⟩

namespace Node

/-- What the lookups for the messages of a room ask the store for. -/
structure Asks (C : Crates) (room asked : String) : Prop where
  extracted : extractGroupId room = .ok asked
  stored : ∀ (c : Coordinator C) (msg : Arrival), msg.room = room →
    c.storedGroup msg.room = (c.db asked).bind C.publicKeyGroup.read

theorem asks_of_extracted {room asked : String} (h : extractGroupId room = .ok asked) :
    Asks C room asked := by
  refine ⟨h, fun c msg hmsg => ?_⟩
  rw [hmsg, Coordinator.storedGroup, h]

variable (C) in
/-- **When a room leads back to its group.** The room that either handler builds for
a request id and the participants reads back as their group id exactly if it is
legible. In every run the lookups for the messages of a registered session
ask for one id, and it is the session's own exactly under that condition. -/
theorem readsBack_iff :
    (∀ (requestId : String) (keys : List String) (t : UInt16) (own : String)
        (group : PublicKeyGroup), PublicKeyGroup.new keys t own = .ok group →
      (extractGroupId (makeRoomId requestId group.groupId) = .ok group.groupId ↔
        Legible requestId keys group.groupId) ∧
      (extractGroupId (requestId ++ "@" ++ group.groupId) = .ok group.groupId ↔
        Legible requestId keys group.groupId)) ∧
    ∀ (sk : C.SecretKey) (db : Tree C) (os : List (Obs C)) (n : Node C),
      Run step anyStep (init sk db) os n → ∀ x ∈ n.registered, ∃ groupId asked,
        PublicKeyGroup.groupIdOf x.2.participants = .ok groupId ∧ Asks C x.1 asked ∧
        (asked = groupId ↔ Legible x.2.requestId x.2.participants groupId) := by
  constructor
  · intro requestId keys t own group hnew
    obtain ⟨groupId, hgid, rfl⟩ := PublicKeyGroup.new_eq_ok.mp hnew
    have hread := extractGroupId_makeRoomId_iff hgid requestId
    exact ⟨hread, hread⟩
  · intro sk db os n hrun x hx
    obtain ⟨groupId, hgid, hroom⟩ := roomOf_registered hrun x hx
    obtain ⟨asked, hasked⟩ := extractGroupId_isOk x.2.requestId groupId
    rw [← hroom] at hasked
    refine ⟨groupId, asked, hgid, asks_of_extracted hasked, ?_⟩
    rw [← extractGroupId_makeRoomId_iff hgid, ← hroom, hasked]
    exact ⟨congrArg Except.ok, Except.ok.inj⟩

end Node

namespace Sample

/-- Bob's session in a keygen with Alice: its messages are checked against its group. -/
theorem room_readsBack : ∃ os n, Run Node.step anyStep (bobsNode keygen nothing) os n ∧
    ("k1@73ee5cd6c20e0c08", .keygen (keygenOf "k1" [.alice, .bob] 1)) ∈ n.registered ∧
    extractGroupId (makeRoomId "k1" "73ee5cd6c20e0c08") = .ok "73ee5cd6c20e0c08" ∧
    Node.Asks (crates keygen) "k1@73ee5cd6c20e0c08" "73ee5cd6c20e0c08" := by
  obtain ⟨os, n, hrun, hmem⟩ := registered_of_takesUp
    (n := bobsNode keygen nothing) (.keygen (keygenOf "k1" [.alice, .bob] 1))
    (show takesUp _ _ ("k1@73ee5cd6c20e0c08", .keygen (keygenOf "k1" [.alice, .bob] 1)) = true by
      decide)
  have hlegible : Legible "k1" (keyTexts [.alice, .bob]) "73ee5cd6c20e0c08" :=
    ⟨separatorFree_keyTexts _, .inl (by decide)⟩
  obtain ⟨groupId, asked, hgid, hasks, hasked⟩ :=
    (Node.readsBack_iff (crates keygen)).2 _ _ _ _ hrun _ hmem
  have hid : PublicKeyGroup.groupIdOf (keyTexts [.alice, .bob]) = .ok "73ee5cd6c20e0c08" := by
    decide
  obtain rfl : "73ee5cd6c20e0c08" = groupId := Except.ok.inj (hid.symm.trans hgid)
  obtain rfl : asked = "73ee5cd6c20e0c08" := hasked.mpr hlegible
  refine ⟨os, n, hrun, hmem, ?_, hasks⟩
  exact ((Node.readsBack_iff (crates keygen)).1 "k1" (keyTexts [.alice, .bob]) 1
    Party.bob.keyText _ (PublicKeyGroup.new_eq_ok.mpr ⟨_, hid, rfl⟩)).1.mpr hlegible

/-- The server admits the id `k1@x` as any other, and then looks a group `x` up. -/
theorem separator_misleads :
    ∃ os s, Run System.step anyStep (bobsSystem keygen nothing nothing) os s ∧
      System.queuedIds os = ["k1@x"] ∧
      ("k1@x@73ee5cd6c20e0c08", .keygen (keygenOf "k1@x" [.alice, .bob] 1)) ∈
        s.node.registered ∧
      PublicKeyGroup.groupIdOf (keyTexts [.alice, .bob]) = .ok "73ee5cd6c20e0c08" ∧
      extractGroupId "k1@x@73ee5cd6c20e0c08" = .ok "x" := by
  obtain ⟨os, s, hrun, hend⟩ := Run.ofTest System.step anyStep
    (bobsSystem keygen nothing nothing)
    (callKeygen "k1@x" :: completeCall ++
      [.server (.join true), .forward, .node (.mail allWell)])
    (fun r => decide (System.queuedIds r.2 = ["k1@x"] ∧
      ("k1@x@73ee5cd6c20e0c08", .keygen (keygenOf "k1@x" [.alice, .bob] 1)) ∈
        r.1.node.registered)) (by decide) (admits_anyStep _ _)
  obtain ⟨hqueued, hmem⟩ := of_decide_eq_true hend
  exact ⟨os, s, hrun, hqueued, hmem, by decide, by decide +kernel⟩

end Sample

end MpcServer

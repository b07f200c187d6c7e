import MpcServer.Network
import MpcServer.Checking

/-!
# What one server hears is what another said

As long as no stranger posts under the key of a server, whatever a runner is
handed under such a key was said by a runner of the server whose key it is, in
the same room and to the letter.
-/

namespace MpcServer

open Rust Machine

variable {C : Crates}

/-! ## An envelope and its text -/

variable (C) in
/-- The envelope of a message under this key. -/
def signed (sk : C.SecretKey) (m : CoreMessage) : WireMessage :=
  { room := m.room, payload := m.message, senderPublicKey := C.ownKey sk
    signature := C.hexEncode (C.serializeSignature (C.sign (payloadDigest m.message) sk)) }

theorem envelopeText_eq (sk : C.SecretKey) (m : CoreMessage) :
    envelopeText (.join () sk) m = C.wireMessage.write (signed C sk m) := rfl

section
variable (laws : WireLaws C) {sk : C.SecretKey} {m : CoreMessage} {text : String}
include laws

theorem exists_envelopeText (state : Outgoing C Unit) (m : CoreMessage) :
    ∃ text, envelopeText state m = some text := by
  unfold envelopeText signEnvelope
  exact (laws.wireMessage _).imp fun _ h => h.1

/-- What a server posts is parsed and verified by everybody. -/
theorem doParseSigned_envelopeText (h : envelopeText (.join () sk) m = some text) :
    doParseSigned C text = .ok (signed C sk m) := by
  obtain ⟨text', hwrite, hread⟩ := laws.wireMessage (signed C sk m)
  cases hwrite.symm.trans ((envelopeText_eq sk m).symm.trans h)
  exact doParseSigned_eq_ok.mpr ⟨hread, C.publicKeyOf sk, _, _, _, laws.hexDecode _,
    laws.parsePublicKey _, laws.hexDecode _, laws.parseSignature _, laws.verify _ _⟩

theorem accepted_envelopeText (h : envelopeText (.join () sk) m = some text)
    (ownPubKey : String) : Network.accepted C ownPubKey (.ok text) =
      if C.ownKey sk ≠ ownPubKey then some (signed C sk m) else none := by
  simp only [Network.accepted, parseSigned, doParseSigned_envelopeText laws h, takeNonOwned,
    signed, decide_eq_true_eq]

end

/-! ## Opening what was closed -/

namespace Coordinator

section
variable {c d : Coordinator C} {amb : Ambient} {msg sent : CoreMessage} {receiver : Option UInt16}
  {w a : Arrival}

theorem Departs.room (h : c.Departs amb msg sent) : sent.room = msg.room := by
  cases h with
  | broadcast _ _ => rfl
  | encrypted _ _ _ _ henc =>
      obtain ⟨_, _, _, _, _, _, _, -, -, -, -, -, -, -, -, rfl⟩ := henc
      rfl

/-- A broadcast is opened to what was said. -/
theorem Departs.opened_broadcast (laws : WireLaws C) (htext : Serialised C none msg.message)
    (h : c.Departs amb msg sent) (hw : w.payload = sent.message) (ha : d.Opened w a) :
    a.payload = msg.message := by
  obtain ⟨g, hg, hreceiver, -⟩ := htext.generic laws
  cases h with
  | encrypted hm hj _ _ _ =>
      cases hm.symm.trans hg
      cases hj.symm.trans hreceiver
  | broadcast _ _ =>
      cases ha with
      | broadcast _ _ _ _ => exact hw
      | addressed _ _ hread hsome _ _ _ _ _ =>
          rw [hw] at hread
          cases hread.symm.trans hg
          cases hsome.symm.trans hreceiver

/-- A message for one is opened to what was said, if it was closed under the key of
the one who opens it. -/
theorem Departs.opened_addressed (laws : WireLaws C) {j : UInt16}
    (htext : Serialised C (some j) msg.message) (h : c.Departs amb msg sent)
    {c' : Coordinator C} (hc : Node.Continues c c') {group : PublicKeyGroup}
    (hgroup : c'.storedGroup msg.room = some group)
    (hkey : group.publicKeys[j.toNat - 1]? = some (C.ownKey d.sk))
    (hw : w.payload = sent.message) (ha : d.Opened w a) : a.payload = msg.message := by
  obtain ⟨g, hg, hreceiver, hwrite⟩ := htext.generic laws
  cases h with
  | broadcast hm hj =>
      cases hm.symm.trans hg
      cases hj.symm.trans hreceiver
  | @encrypted m j' group' _ hm hj _ hstored henc =>
      obtain rfl : m = g := Option.some.inj (hm.symm.trans hg)
      obtain rfl : j' = j := Option.some.inj (hj.symm.trans hreceiver)
      obtain rfl : group' = group :=
        Option.some.inj ((storedGroup_continues hc hstored).symm.trans hgroup)
      obtain ⟨key, bytes, pk, ciphertext, sealedText, body, text, -, hkey', hbytes, hpk, hcipher,
        hsealed, hbody, htext', rfl⟩ := henc
      -- the key is the opener's own
      cases hkey'.symm.trans hkey
      cases hbytes.symm.trans (laws.hexDecode _)
      cases hpk.symm.trans (laws.parsePublicKey _)
      obtain ⟨ciphertext', hcipher', hplain⟩ :=
        laws.decrypt d.sk amb.seed (C.rawValueText m.body).toUTF8
      cases hcipher.symm.trans hcipher'
      obtain ⟨sealedText', hsealed', hunseal⟩ :=
        laws.encrypted { encrypted := C.base64Encode ciphertext }
      cases hsealed.symm.trans hsealed'
      obtain ⟨body', hbody', hbodyText⟩ := laws.rawEncrypted _ _ hsealed
      cases hbody.symm.trans hbody'
      obtain ⟨text', hwrite', hread⟩ := laws.genericMessage { m with body }
      cases htext'.symm.trans hwrite'
      have hopens : PublicKeyGroup.decrypt (C := C) d.sk (C.base64Encode ciphertext) =
          .ok (C.rawValueText m.body) := by
        simp only [PublicKeyGroup.decrypt, laws.base64Decode, hplain, context_some, bind,
          Except.bind, fromUTF8?_toUTF8]
      cases ha with
      | broadcast _ _ hread' hnone =>
          rw [hw] at hread'
          cases hread'.symm.trans hread
          cases hnone.symm.trans hj
      | addressed _ _ hread' _ _ henc' hplain' hbody'' htext'' =>
          rw [hw] at hread'
          cases hread'.symm.trans hread
          rw [hbodyText, hunseal] at henc'
          cases henc'
          cases hopens.symm.trans hplain'
          cases (laws.rawValue _).symm.trans hbody''
          exact Option.some.inj (htext''.symm.trans hwrite)

theorem Opened.same (h : d.Opened w a) :
    a.room = w.room ∧ a.senderPublicKey = w.senderPublicKey ∧ a.origin = w.origin := by
  cases h <;> exact ⟨rfl, rfl, rfl⟩

end

end Coordinator

namespace Network

/-! ## Strangers -/

/-- The keys of the servers. -/
def keysOf (sites : List (Site C)) : List String := sites.map fun site => C.ownKey site.sk

variable (C) in
/-- A text that no server takes for an envelope under one of the keys. -/
def Unforged (keys : List String) (text : String) : Prop :=
  match doParseSigned C text with
  | .ok w => w.senderPublicKey ∉ keys
  | .error _ => True

instance (keys : List String) (text : String) : Decidable (Unforged C keys text) := by
  unfold Unforged
  split <;> infer_instance

/-- No stranger posts under the key of a server. What else he posts is his own affair. -/
def NoForgery (sites : List (Site C)) (_ : Network C) : Event → Prop
  | .messenger (.request (.broadcast text)) => Unforged C (keysOf sites) text
  | _ => True

instance (sites : List (Site C)) (net : Network C) (e : Event) :
    Decidable (NoForgery sites net e) := by
  unfold NoForgery
  split <;> infer_instance

/-- What the coordinator of a server has put out. -/
def nodeTrace (i : Nat) (os : List (Obs C)) : List (MpcServer.Obs C) :=
  (os.filterMap (ofPeer i)).filterMap System.nodeObs

section
variable {checks : Bool} {guard : Network C → Event → Prop} {sites : List (Site C)}
  {os o : List (Obs C)} {net t : Network C} {e : Event} {i j : Nat} {site other : Site C}
  {text : String}

theorem mem_nodeTrace {x : MpcServer.Obs C} : x ∈ nodeTrace i os ↔ .peer i (.node x) ∈ os := by
  simp only [nodeTrace, List.mem_filterMap]
  constructor
  · rintro ⟨y, ⟨z, hz, hy⟩, hx⟩
    cases z with
    | peer j o =>
        simp only [ofPeer, Option.ite_none_right_eq_some, Option.some.injEq] at hy
        obtain ⟨rfl, rfl⟩ := hy
        cases o <;> cases hx
        exact hz
    | _ => cases hy
  · exact fun h => ⟨.node x, ⟨_, h, if_pos rfl⟩, rfl⟩

/-- Whoever puts something out is the server of a site. -/
theorem site_of_mem (hrun : Run (step checks) guard (init sites) os net) {x : System.Obs C}
    (h : .peer j x ∈ os) : ∃ site, sites[j]? = some site := by
  have hlength : net.peers.length = sites.length ∧ (.peer j x ∈ os → j < sites.length) := by
    refine hrun.invariant (fun os net => net.peers.length = sites.length ∧
      (.peer j x ∈ os → j < sites.length)) ⟨by simp [init], fun h => by cases h⟩ ?_
    rintro os net e t o - ⟨hlength, ih⟩ - hs
    have hin {k : Nat} {p : Peer C} (hp : net.peers[k]? = some p) : k < sites.length :=
      hlength ▸ (List.getElem?_eq_some_iff.mp hp).1
    have hmine {k : Nat} {o' : List (System.Obs C)} {p : Peer C} (hp : net.peers[k]? = some p)
        (h : .peer j x ∈ o'.map (Obs.peer k)) : j < sites.length := by
      obtain ⟨_, -, heq⟩ := List.mem_map.mp h
      cases heq
      exact hin hp
    cases step_cases hs with
    | acted hp _ _ _ =>
        exact ⟨by rwa [List.length_set], fun h => (List.mem_append.mp h).elim ih (hmine hp)⟩
    | subscribed _ _ =>
        exact ⟨by rwa [List.length_set], fun h => (List.mem_append.mp h).elim ih (by simp)⟩
    | @sent k fate p s m text up hp _ _ =>
        refine ⟨by cases text <;> simpa [submit] using hlength, fun h => ?_⟩
        have hone : [(Obs.peer k (.node (.attempted m text up)) : Obs C)] =
            [System.Obs.node (.attempted m text up)].map (Obs.peer k) := rfl
        exact (List.mem_append.mp h).elim ih fun h => hmine hp (hone ▸ h)
    | heard hp _ _ =>
        refine ⟨by rwa [List.length_set], fun h => (List.mem_append.mp h).elim ih fun h => ?_⟩
        rcases List.mem_cons.mp h with h | h
        · cases h
        · exact hmine hp h
    | relayed _ =>
        exact ⟨by rwa [List.length_map], fun h => (List.mem_append.mp h).elim ih (by simp)⟩
  exact ⟨_, List.getElem?_eq_getElem (hlength.2 h)⟩

/-- A server of the network is a node, and its sink carries what it was given. -/
theorem node_of_run (hrun : Run (step checks) guard (init sites) os net)
    (hi : sites[i]? = some site) : ∃ p, net.peers[i]? = some p ∧
      Run Node.step anyStep (Node.init site.sk site.shares) (nodeTrace i os) p.system.node ∧
      Node.Sends site.sk (nodeTrace i os) p.system.node := by
  obtain ⟨p, hp, htracks⟩ := tracks_of_run hrun hi
  have hnode := System.node_of_run htracks.run
  exact ⟨p, hp, hnode, Node.sends_of_run hnode⟩

/-! ## Whose text it is -/

/-- A server has posted the text, or nobody takes it for one of theirs. -/
def Authored (sites : List (Site C)) (os : List (Obs C)) (text : String) : Prop :=
  (∃ j m up, .peer j (.node (.attempted m (some text) up)) ∈ os) ∨ Unforged C (keysOf sites) text

/-- Every text on its way to a room, or in one, has an author. -/
structure Attributed (sites : List (Site C)) (os : List (Obs C)) (db : Messenger.Db) :
    Prop where
  underWay : ∀ h text, db.underWay h = some text → Authored sites os text
  published : ∀ h room text, .messenger (.published h room text) ∈ os → Authored sites os text

theorem Authored.append (h : Authored sites os text) (o : List (Obs C)) :
    Authored sites (os ++ o) text :=
  h.imp_left fun ⟨j, m, up, hmem⟩ => ⟨j, m, up, List.mem_append_left _ hmem⟩

/-- A step of the messenger, in which a request may have come in. -/
theorem Attributed.carried {db t : Messenger.Db} (h : Attributed sites os db)
    {e : Messenger.Event} {mo : List Messenger.Obs} (hc : Messenger.Db.Carries db t e mo)
    (hnew : ∀ text, e = .request (.broadcast text) → Authored sites (os ++ o) text)
    (ho : ∀ x, .messenger x ∈ o → x ∈ mo) : Attributed sites (os ++ o) t := by
  have hold (h' room text) (hmem : .messenger (.published h' room text) ∈ os ++ o)
      (hnot : ∀ h room message, .published h room message ∉ mo) : Authored sites (os ++ o) text :=
    (List.mem_append.mp hmem).elim (fun hmem => (h.published h' room text hmem).append o)
      fun hmem => absurd (ho _ hmem) (hnot _ _ _)
  cases hc with
  | stayed ht hnot =>
      exact ⟨fun h' text hw => (h.underWay h' text (ht ▸ hw)).append o,
        fun h' room text hmem => hold h' room text hmem hnot⟩
  | came message ht =>
      refine ⟨fun h' text hw => ?_, fun h' room text hmem => hold h' room text hmem (by simp)⟩
      rw [ht, Function.update_apply] at hw
      split at hw
      · cases hw
        exact hnew _ rfl
      · exact (h.underWay h' text hw).append o
  | published _ hw ht =>
      refine ⟨fun h' text hw' => ?_, fun h' room' text hmem => ?_⟩
      · rw [ht, Function.update_apply] at hw'
        split at hw'
        · cases hw'
        · exact (h.underWay h' text hw').append o
      · rcases List.mem_append.mp hmem with hmem | hmem
        · exact (h.published h' room' text hmem).append o
        · cases List.mem_singleton.mp (ho _ hmem)
          exact (h.underWay _ _ hw).append o

theorem attributed_of_run (hrun : Run (step checks) (NoForgery sites) (init sites) os net) :
    Attributed sites os net.messenger := by
  refine hrun.invariant (fun os net => Attributed sites os net.messenger)
    ⟨fun h text hw => (by cases hw), fun h room text hmem => (by cases hmem)⟩ ?_
  intro os net e t o _ h hg hs
  have hstill (ho : ∀ x, .messenger x ∉ o) : Attributed sites (os ++ o) net.messenger :=
    h.carried (.stayed rfl (by simp) : Messenger.Db.Carries _ _ (.poll 0) [])
      (fun _ heq => by cases heq) fun x hx => absurd hx (ho x)
  have hcame (task : Messenger.Task)
      (hnew : ∀ text, task = .broadcast text → Authored sites (os ++ o) text)
      (ho : ∀ x, .messenger x ∉ o) :
      Attributed sites (os ++ o) (net.messenger.addHandler task .start) :=
    h.carried (Messenger.Db.Handles.came task rfl).carries
      (fun text heq => hnew text (by simpa using heq)) fun x hx => absurd hx (ho x)
  cases step_cases hs with
  | acted _ _ _ _ => exact hstill (by simp)
  | subscribed _ _ => exact hcame _ (by simp) (by simp)
  | @sent i fate p s m text up _ _ _ =>
      cases text with
      | none => exact hstill (by simp)
      | some text =>
          refine hcame _ (fun text' heq => .inl ⟨i, m, up, List.mem_append_right _ ?_⟩) (by simp)
          cases heq
          exact List.mem_singleton_self _
  | heard _ _ _ => exact hstill (by simp)
  | relayed hstep =>
      refine h.carried (Messenger.Db.step_cases hstep).handles.carries (fun text heq => ?_)
        (by simp)
      subst heq
      exact .inr hg

/-! ## Heard as said -/

theorem doParseSigned_of_accepted {ownPubKey : String} {item : Except String String}
    {w : WireMessage} (h : accepted C ownPubKey item = some w) :
    ∃ text, item = .ok text ∧ doParseSigned C text = .ok w := by
  cases item with
  | error _ => cases h
  | ok text =>
      refine ⟨text, rfl, ?_⟩
      unfold accepted at h
      simp only [parseSigned] at h
      split at h
      · rename_i w' hparse
        split at h
        · cases h
          exact Option.some.inj hparse
        · cases h
      · cases h

/-- What a server hears was published in a room of the messenger. -/
theorem published_of_heard (hrun : Run (step checks) guard (init sites) os net)
    (hi : sites[i]? = some site) {intact : Bool} (h : .heard i text intact ∈ os) :
    ∃ h room, .messenger (.published h room text) ∈ os := by
  obtain ⟨p, -, hlinked⟩ := linked_of_run hrun hi
  have hheard : text ∈ os.filterMap (heardText i) :=
    List.mem_filterMap.mpr ⟨_, h, if_pos rfl⟩
  cases hsub : p.link.subscription with
  | none =>
      rw [(hlinked.unread hsub).2] at hheard
      cases hheard
  | some k =>
      have hmem := List.mem_append_left p.link.stream hheard
      rw [← (hlinked.returned k hsub).2] at hmem
      obtain ⟨x, hx, htext⟩ := List.mem_filterMap.mp hmem
      obtain ⟨⟨id, message⟩, hby, rfl⟩ := Option.map_eq_some_iff.mp htext
      unfold Messenger.returnedBy at hby
      split at hby
      · split at hby
        · cases hby
          obtain ⟨h', room, hpublished⟩ :=
            Messenger.Db.published_of_returned (messenger_run hrun) hx
          obtain ⟨y, hy, heq⟩ := List.mem_filterMap.mp hpublished
          cases y <;> cases heq
          exact ⟨h', room, hy⟩
        · cases hby
      · cases hby

/-- An envelope that a server receives under the key of a server is one that this one sent. -/
theorem sent_of_received (laws : WireLaws C)
    (hrun : Run (step checks) (NoForgery sites) (init sites) os net)
    (hi : sites[i]? = some site) {origin : Nat} {w : WireMessage}
    (h : .received origin w ∈ nodeTrace i os) (hkey : w.senderPublicKey ∈ keysOf sites) :
    ∃ j other m, sites[j]? = some other ∧ C.ownKey other.sk ≠ C.ownKey site.sk ∧
      w = signed C other.sk m ∧ .effect (.send m) ∈ nodeTrace j os := by
  obtain ⟨p, -, htracks⟩ := tracks_of_run hrun hi
  have hmem : w ∈ (os.filterMap (ofPeer i)).filterMap receivedWire := by
    refine List.mem_filterMap.mpr ⟨.node (.received origin w), ?_, rfl⟩
    exact List.mem_filterMap.mpr ⟨_, mem_nodeTrace.mp h, if_pos rfl⟩
  rw [htracks.received] at hmem
  obtain ⟨x, hx, haccepted⟩ := List.mem_filterMap.mp hmem
  obtain ⟨y, hy, hheard⟩ := List.mem_filterMap.mp hx
  obtain ⟨text, rfl, hparse⟩ := doParseSigned_of_accepted haccepted
  cases y with
  | heard k text' intact =>
      simp only [heardItem, Option.ite_none_right_eq_some, Option.some.injEq] at hheard
      obtain ⟨rfl, hitem⟩ := hheard
      cases intact <;> cases hitem
      obtain ⟨_, _, hpublished⟩ := published_of_heard hrun hi hy
      rcases (attributed_of_run hrun).published _ _ _ hpublished with
        ⟨j, m, up, hattempted⟩ | hunforged
      · obtain ⟨other, hj⟩ := site_of_mem hrun hattempted
        obtain ⟨q, -, -, hsends⟩ := node_of_run hrun hj
        have hattempted := mem_nodeTrace.mpr hattempted
        have haccepted' := (accepted_envelopeText laws (hsends.texts m text up hattempted)
          (C.ownKey site.sk)).symm.trans haccepted
        split at haccepted'
        · cases haccepted'
          refine ⟨j, other, m, hj, ‹_›, rfl, ?_⟩
          have hgiven : m ∈ (nodeTrace j os).filterMap Node.given := by
            rw [hsends.order]
            exact List.mem_append_left _ (List.mem_filterMap.mpr ⟨_, hattempted, rfl⟩)
          obtain ⟨z, hz, heq⟩ := List.mem_filterMap.mp hgiven
          unfold Node.given at heq
          split at heq
          · cases heq
            exact hz
          · cases heq
        · cases haccepted'
      · unfold Unforged at hunforged
        rw [hparse] at hunforged
        exact absurd hkey hunforged
  | _ => cases hheard

/-- **What is heard was said.** In every run in which no stranger posts under the key of a
server, whatever a runner is handed under such a key was said by a runner of the server
whose key it is, in the same room. A broadcast is the very text that was said; so is a
message for one, where the group its sender stores for the room has the key of the server
that hears it at the receiver's place. -/
theorem heard_as_said (laws : WireLaws C)
    (hrun : Run (step checks) (NoForgery sites) (init sites) os net)
    (hi : sites[i]? = some site) {x : MpcServer.Obs C} (hx : x ∈ nodeTrace i os)
    {a : Arrival} (ha : Node.handedCopy x = some a) (hkey : a.senderPublicKey ∈ keysOf sites) :
    Node.Delivers a x ∧ ∃ j other q msg receiver, sites[j]? = some other ∧
      C.ownKey other.sk ≠ C.ownKey site.sk ∧ net.peers[j]? = some q ∧
      .handled (.outgoing msg) ∈ nodeTrace j os ∧ Node.Said q.system.node msg receiver ∧
      a.room = msg.room ∧ a.senderPublicKey = C.ownKey other.sk ∧
      (receiver = none → a.payload = msg.message) ∧
      ∀ r group, receiver = some r →
        q.system.node.coordinator.storedGroup msg.room = some group →
        group.publicKeys[r.toNat - 1]? = some (C.ownKey site.sk) → a.payload = msg.message := by
  obtain ⟨p, -, hnode, -⟩ := node_of_run hrun hi
  have hknown := Node.known_of_run (Node.checkedCopies _) hnode x hx
  obtain ⟨hdelivers, hchecked⟩ := hknown.delivered a ha
  refine ⟨hdelivers, ?_⟩
  cases hchecked with
  | @intro os₁ o os₂ n t e w amb hos hrun₁ _ _ hreceived _ hopened =>
      obtain ⟨hroom, hsender, -⟩ := hopened.same
      have hmem : .received w.origin w.toWireMessage ∈ nodeTrace i os := by
        rw [hos]
        exact List.mem_append_left _ hreceived
      obtain ⟨j, other, sent, hj, hne, hw, hsend⟩ :=
        sent_of_received laws hrun hi hmem (hsender ▸ hkey)
      obtain ⟨q, hq, hnode', -⟩ := node_of_run hrun hj
      obtain ⟨c, amb', msg, hhandled, hcontinues, hdeparts⟩ := Node.departed_of_run hnode' hsend
      obtain ⟨receiver, hsaid⟩ := Node.said_of_run hnode' (.inr hhandled)
      have hpayload : w.payload = sent.message := congrArg WireMessage.payload hw
      have hsk : n.coordinator.sk = site.sk := (Node.continues_of_run hrun₁).sk
      refine ⟨j, other, q, msg, receiver, hj, hne, hq, hhandled, hsaid, ?_, ?_, ?_, ?_⟩
      · rw [hroom, ← hdeparts.room]
        exact congrArg WireMessage.room hw
      · rw [hsender]
        exact congrArg WireMessage.senderPublicKey hw
      · intro hnone
        exact hdeparts.opened_broadcast laws (hnone ▸ hsaid.serialised) hpayload hopened
      · intro r group hsome hgroup hplace
        exact hdeparts.opened_addressed laws (hsome ▸ hsaid.serialised) hcontinues hgroup
          (hsk ▸ hplace) hpayload hopened

end

end Network

namespace Sample

open Network

/-! ## Alice and Carol speak, Bob listens -/

/-- A server of this party, with nothing in its trees. -/
def siteOf (p : Party) : Site jsonCrates := { sk := p, shares := nothing, results := nothing }

/-- Carol, who is to take part, has no server of the network. -/
def bobThenAlice : List (Site jsonCrates) := [siteOf .bob, siteOf .alice]

theorem bobThenAlice_bob : bobThenAlice[0]? = some (siteOf .bob) := rfl

theorem bobThenAlice_alice : bobThenAlice[1]? = some (siteOf .alice) := rfl

theorem bobThenAlice_keys : (keysOf bobThenAlice).Nodup := by decide +kernel

/-- Both servers subscribe. -/
def bothSubscribe : List Network.Event :=
  [.subscribe 0, .messenger (.read 0), .messenger (.write 0), .messenger (.finish 0),
    .subscribe 1, .messenger (.read 1), .messenger (.finish 1)]

/-- A client calls the server, the server joins the broker, the coordinator starts a player. -/
def startsKeygen (i : Nat) : List Network.Event :=
  [.peer i (.server (.call (.keygen (keygenOf "k1" [.alice, .bob, .carol] 1)) true)),
    .peer i (.server (.announce 0)), .peer i (.server (.queue 0)), .peer i (.server (.join true)),
    .peer i .forward, .peer i (.node (.mail allWell))]

/-- Alice's player says its first message. -/
def aliceSpeaks : List Network.Event :=
  [.peer 1 (.node (.tickKG 0 0)), .peer 1 (.node (.mail allWell)), .send 1 .answered,
    .messenger (.read 2), .messenger (.finish 2)]

/-- What Carol posts. -/
def carolsText : String :=
  (envelopeText (C := jsonCrates) (.join () Party.carol)
    { room := "k1@73ee5cd6c20e0c08d0639e47"
      message := messageText { sender := 3, receiver := none, body := keygenBodyText 1 } }).getD ""

/-- Carol says hers. -/
def carolSpeaks : List Network.Event :=
  [.messenger (.request (.broadcast carolsText)), .messenger (.read 3), .messenger (.finish 3)]

/-- Bob hears what is next. -/
def bobHears : List Network.Event := [.messenger (.poll 0), .hear 0 true allWell]

/-- What Bob's player is handed under Alice's key was said by a runner of Alice's; under
Carol's it is handed something, too. -/
theorem heard_as_said_alice : ∃ os net x a,
    Run (Network.step true) (NoForgery bobThenAlice) (Network.init bobThenAlice) os net ∧
      x ∈ nodeTrace 0 os ∧ Node.handedCopy x = some a ∧
      (∃ y ∈ nodeTrace 0 os, ∃ c, Node.handedCopy y = some c ∧
        c.senderPublicKey = Party.carol.keyText) ∧
      Node.Delivers a x ∧ ∃ j other q msg receiver, bobThenAlice[j]? = some other ∧
        jsonCrates.ownKey other.sk ≠ jsonCrates.ownKey (siteOf .bob).sk ∧
        net.peers[j]? = some q ∧ .handled (.outgoing msg) ∈ nodeTrace j os ∧
        Node.Said q.system.node msg receiver ∧ a.room = msg.room ∧
        a.senderPublicKey = jsonCrates.ownKey other.sk ∧
        (receiver = none → a.payload = msg.message) ∧
        ∀ r group, receiver = some r →
          q.system.node.coordinator.storedGroup msg.room = some group →
          group.publicKeys[r.toNat - 1]? = some (jsonCrates.ownKey (siteOf .bob).sk) →
          a.payload = msg.message := by
  obtain ⟨os, net, hrun, hend⟩ := Run.ofGuardedTest (Network.step true) (NoForgery bobThenAlice)
    (Network.init bobThenAlice)
    (bothSubscribe ++ startsKeygen 0 ++ startsKeygen 1 ++ aliceSpeaks ++ carolSpeaks ++ bobHears ++
      bobHears)
    (fun r => decide (((nodeTrace 0 r.2).filterMap Node.handedCopy).map (·.senderPublicKey) =
      [Party.alice.keyText, Party.carol.keyText]))
    (by decide +kernel)
  have hkeys := of_decide_eq_true hend
  have hcopy {key : String} (hkey : key ∈ [Party.alice.keyText, Party.carol.keyText]) :
      ∃ x ∈ nodeTrace 0 os, ∃ a, Node.handedCopy x = some a ∧ a.senderPublicKey = key := by
    rw [← hkeys] at hkey
    obtain ⟨a, ha, rfl⟩ := List.mem_map.mp hkey
    obtain ⟨x, hx, hcopy⟩ := List.mem_filterMap.mp ha
    exact ⟨x, hx, a, hcopy, rfl⟩
  obtain ⟨x, hx, a, ha, halice⟩ := hcopy List.mem_cons_self
  have hmember : a.senderPublicKey ∈ keysOf bobThenAlice := by
    rw [halice]
    decide +kernel
  exact ⟨os, net, x, a, hrun, hx, ha, hcopy (by simp),
    heard_as_said jsonLaws hrun bobThenAlice_bob hx ha hmember⟩

end Sample

end MpcServer

import MpcServer.Exchange

/-!
# Where nothing is lost

If every post is answered, nothing breaks on its way down, no server's
subscription ends and nobody is left behind in an old room, then one server
receives all that another one sent, as soon as both are through.
-/

namespace MpcServer

open Rust Machine

variable {C : Crates}

/-- A post that is answered leaves the sink as it was. -/
theorem Posts.answered (laws : WireLaws C) {state : Outgoing C Unit} {m : CoreMessage}
    {sink : Option (Outgoing C Unit)} {up : Bool} {text : Option String}
    (h : Posts (some state) .answered m sink up text) :
    sink = some state ∧ text.isSome = true := by
  cases h with
  | sent _ _ => exact ⟨rfl, rfl⟩
  | refused hnone _ =>
      obtain ⟨text', htext⟩ := exists_envelopeText laws state m
      cases (hnone rfl).symm.trans htext

namespace Network

/-- Every post is answered, every item arrives whole, no server's subscription is closed,
and no room is replaced under a subscriber. -/
def Untroubled (net : Network C) : Event → Prop
  | .send _ fate => fate = .answered
  | .hear _ intact _ => intact = true
  | .messenger (.close k) => ∀ p ∈ net.peers, p.link.subscription ≠ some k
  | .messenger e => net.messenger.Undisturbed e
  | .peer _ _ | .subscribe _ => True

instance (net : Network C) (e : Event) : Decidable (Untroubled net e) := by
  unfold Untroubled
  split <;> infer_instance

/-- What it takes that nothing is lost, forged or counted twice. -/
def Reliable (sites : List (Site C)) (net : Network C) (e : Event) : Prop :=
  NoForgery sites net e ∧ FewTexts net e ∧ Untroubled net e

instance (sites : List (Site C)) (net : Network C) (e : Event) :
    Decidable (Reliable sites net e) := by
  unfold Reliable
  infer_instance

section
variable {checks : Bool} {guard : Network C → Event → Prop} {sites : List (Site C)}
  {os o : List (Obs C)} {net t : Network C} {e : Event} {i j : Nat} {site other : Site C}
  {p q : Peer C} {text : String}

theorem undisturbed_of_run (hrun : Run (step checks) (Reliable sites) (init sites) os net) :
    Run (Messenger.Db.step checks) Messenger.Db.Undisturbed .empty (os.filterMap ofMessenger)
      net.messenger := by
  refine messenger_of_run _ (fun _ _ => trivial) (fun net e hg => ?_) hrun
  cases e with
  | close k => trivial
  | _ => exact hg.2.2

/-! ## Nothing breaks -/

theorem intact_of_run (hrun : Run (step checks) (Reliable sites) (init sites) os net)
    {intact : Bool} (h : .heard i text intact ∈ os) : intact = true := by
  obtain ⟨_, _, _, _, _, _, -, hg, hs, hmem, -, -⟩ := hrun.step_of_mem h
  cases step_cases hs with
  | heard _ _ _ =>
      rcases List.mem_cons.mp hmem with heq | hmem
      · cases heq
        exact hg.2.2
      · simp at hmem
  | _ => simp at hmem

/-- What is heard whole is received. -/
theorem Tracks.receivedFrom_eq (h : Tracks site i os p)
    (hintact : ∀ text intact, .heard i text intact ∈ os → intact = true) (key : String) :
    Network.receivedFrom i key os =
      (os.filterMap (heardText i)).filterMap (envelopeUnder C (C.ownKey site.sk) key) := by
  rw [h.receivedFrom, List.filterMap_filterMap]
  refine List.filterMap_congr fun x hx => ?_
  cases x with
  | heard k text intact =>
      by_cases hki : k = i
      · subst hki
        obtain rfl := hintact text intact hx
        simp only [heardItem, heardText, if_pos]
        rfl
      · simp [heardItem, heardText, hki]
  | _ => rfl

/-! ## The sink stays -/

theorem nodeTrace_append (j : Nat) (os o : List (Obs C)) :
    nodeTrace j (os ++ o) = nodeTrace j os ++ nodeTrace j o := by
  simp only [nodeTrace, List.filterMap_append]

/-- A server keeps its sink, and whatever it attempts gets to the messenger. -/
theorem lossless_of_run (laws : WireLaws C)
    (hrun : Run (step checks) (Reliable sites) (init sites) os net)
    (hj : sites[j]? = some other) :
    ∃ q, net.peers[j]? = some q ∧ q.system.node.sink.isSome = true ∧
      ∀ m up, .attempted m none up ∉ nodeTrace j os := by
  refine peer_of_run hrun hj (fun os _ q => q.system.node.sink.isSome = true ∧
    ∀ m up, .attempted m none up ∉ nodeTrace j os) ⟨rfl, fun _ _ h => by cases h⟩ ?_
  rintro os net p e t q o _ _ _ _ ⟨hsink, hnone⟩ hg hpart
  have hkept (ho : ∀ m up, .peer j (.node (.attempted m none up)) ∉ o) (m : CoreMessage)
      (up : Bool) : .attempted m none up ∉ nodeTrace j (os ++ o) := by
    rw [mem_nodeTrace, List.mem_append]
    exact not_or.mpr ⟨fun h => hnone m up (mem_nodeTrace.mpr h), ho m up⟩
  obtain ⟨state, hstate⟩ := Option.isSome_iff_exists.mp hsink
  have hsend {fate : PostFate} {s : System C} {m : CoreMessage} {text : Option String} {up : Bool}
      (hfate : fate = .answered)
      (hstep : p.system.step (.node (.sendOne fate)) =
        some (s, [.node (.attempted m text up)])) :
      s.node.sink.isSome = true ∧ text.isSome = true := by
    subst hfate
    have hposts := posts_of_send hstep
    rw [hstate] at hposts
    obtain ⟨hsink', htext⟩ := hposts.answered laws
    exact ⟨hsink' ▸ rfl, htext⟩
  cases hpart with
  | acted _ htraffic _ hstep =>
      obtain ⟨hsame, hquiet⟩ := quiet_of_step hstep fun fate heq => by
        subst heq
        cases htraffic
      refine ⟨hsame ▸ hsink, hkept fun m up hmem => ?_⟩
      obtain ⟨x, hx, heq⟩ := List.mem_map.mp hmem
      cases heq
      exact hquiet m none up hx
  | subscribed _ _ => exact ⟨hsink, hkept (by simp)⟩
  | posted _ _ hstep => exact ⟨(hsend hg.2.2 hstep).1, hkept (by simp)⟩
  | missed _ hstep => cases (hsend hg.2.2 hstep).2
  | heard _ _ hstep =>
      obtain ⟨hsame, hquiet⟩ := quiet_of_step hstep (by simp)
      refine ⟨hsame ▸ hsink, hkept fun m up hmem => ?_⟩
      rcases List.mem_cons.mp hmem with heq | hmem
      · cases heq
      · obtain ⟨x, hx, heq⟩ := List.mem_map.mp hmem
        cases heq
        exact hquiet m none up hx
  | relayed _ => exact ⟨hsink, hkept (by simp)⟩
  | elsewhere hpeer _ _ _ =>
      refine ⟨hsink, hkept fun m up hmem => ?_⟩
      have hview : (.node (.attempted m none up) : System.Obs C) ∈ o.filterMap (ofPeer j) :=
        List.mem_filterMap.mpr ⟨_, hmem, if_pos rfl⟩
      rw [hpeer] at hview
      cases hview

/-- What a server has attempted is posted, and everybody else takes it for its own. -/
theorem posted_eq (laws : WireLaws C) (hrun : Run (step checks) (Reliable sites) (init sites) os net)
    (hj : sites[j]? = some other) {ownPubKey : String} (hother : C.ownKey other.sk ≠ ownPubKey) :
    ((os.filterMap (ofPeer j)).filterMap posted).filterMap
        (envelopeUnder C ownPubKey (C.ownKey other.sk)) =
      ((nodeTrace j os).filterMap Node.toBroker).map (signed C other.sk) := by
  obtain ⟨_, -, -, hnone⟩ := lossless_of_run laws hrun hj
  obtain ⟨_, -, -, hsends⟩ := node_of_run hrun hj
  unfold nodeTrace at hsends hnone ⊢
  generalize os.filterMap (ofPeer j) = l at hsends hnone ⊢
  rw [List.filterMap_filterMap, List.map_filterMap, List.filterMap_filterMap]
  refine List.filterMap_congr fun x hx => ?_
  cases x with
  | server _ => rfl
  | node y =>
      have hmem : y ∈ l.filterMap System.nodeObs := List.mem_filterMap.mpr ⟨_, hx, rfl⟩
      cases y with
      | attempted m text up =>
          cases text with
          | none => exact absurd hmem (hnone m up)
          | some text =>
              have htext := envelopeUnder_envelopeText laws (hsends.texts m text up hmem) ownPubKey
                (C.ownKey other.sk)
              rw [if_pos ⟨hother, rfl⟩] at htext
              exact htext
      | _ => rfl

/-! ## Before the subscription -/

theorem serving_of_node {s : System C} {e : MpcServer.Event}
    {r : System C × List (System.Obs C)} (h : s.step (.node e) = some r) :
    s.server.bootstrap = .serving := by
  simp only [System.step] at h
  split at h
  · rename_i hcond
    exact hcond.1
  · cases h

theorem subscription_of_follow {db : Messenger.Db} {o : List Messenger.Obs} {link : Link}
    (h : (o.foldl (Link.follow db) link).subscription = none) : link.subscription = none := by
  induction o generalizing link with
  | nil => exact h
  | cons x o ih =>
      have h := ih h
      unfold Link.follow at h
      split at h
      · split at h
        · cases h
        · exact h
      · split at h <;> exact h
      · exact h
      · exact h

/-- A server that is not subscribed has no coordinator yet. -/
theorem silent_of_run (hrun : Run (step checks) guard (init sites) os net)
    (hj : sites[j]? = some other) : ∃ q, net.peers[j]? = some q ∧
      (q.link.subscription = none →
        q.system.server.bootstrap ≠ .serving ∧ nodeTrace j os = []) := by
  refine peer_of_run hrun hj (fun os _ q => q.link.subscription = none →
    q.system.server.bootstrap ≠ .serving ∧ nodeTrace j os = []) (fun _ => ⟨by simp [Peer.start,
      System.init, Server.init], rfl⟩) ?_
  intro os net p e t q o _ _ _ _ h _ hpart hnone
  have hstill (hnone : p.link.subscription = none) (hq : q.system = p.system)
      (ho : o.filterMap (ofPeer j) = []) :
      q.system.server.bootstrap ≠ .serving ∧ nodeTrace j (os ++ o) = [] := by
    obtain ⟨hnot, htrace⟩ := h hnone
    refine ⟨hq ▸ hnot, ?_⟩
    rw [nodeTrace_append, htrace, nodeTrace, ho]
    rfl
  cases hpart with
  | @acted t e s o' _ _ hjoin hstep =>
      obtain ⟨hnot, htrace⟩ := h hnone
      cases System.step_cases hstep with
      | forward hserving _ _ => exact absurd hserving hnot
      | node hserving _ _ => exact absurd hserving hnot
      | @server e' s' o'' hserver =>
          refine ⟨fun hserving => ?_, ?_⟩
          · -- it serves once it has joined, and it joins once it is subscribed
            have hsubscribed : p.link.subscription = none := hnone
            cases hserver with
            | joined _ => simpa [hsubscribed] using hjoin rfl
            | left _ => cases hserving
            | _ => exact hnot hserving
          · rw [nodeTrace_append, htrace, nodeTrace, ofPeer_self, System.filterMap_nodeObs_server]
            rfl
  | subscribed _ _ => exact hstill hnone rfl rfl
  | posted _ _ hstep => exact absurd (serving_of_node hstep) (h hnone).1
  | missed _ hstep => exact absurd (serving_of_node hstep) (h hnone).1
  | heard _ _ hstep => exact absurd (serving_of_node hstep) (h hnone).1
  | relayed _ => exact hstill (subscription_of_follow hnone) rfl ofPeer_messenger
  | elsewhere hpeer _ _ _ => exact hstill hnone rfl hpeer

/-! ## In one room -/

/-- A server's subscription lives. -/
theorem live_of_run (hrun : Run (step checks) (Reliable sites) (init sites) os net)
    (hi : sites[i]? = some site) : ∃ p, net.peers[i]? = some p ∧
      ∀ k, p.link.subscription = some k →
        ∃ sub, net.messenger.subscriptions[k]? = some sub ∧ sub.live = true := by
  refine peer_of_run hrun hi (fun _ net p => ∀ k, p.link.subscription = some k →
    ∃ sub, net.messenger.subscriptions[k]? = some sub ∧ sub.live = true) (fun _ h => by cases h) ?_
  intro os net p e t q o hr _ hp _ h hg hpart k hk
  rcases hpart.messenger with ⟨ht, -, hsame⟩ | ⟨e', he, hstep, hfollow⟩
  · rw [ht]
    exact h k (hsame ▸ hk)
  · have hs := Messenger.Db.step_cases hstep
    rcases subscription_follow hs p.link (hfollow ▸ hk) with
      hold | ⟨_, _, _, -, -, -, -, -, hnew⟩
    · obtain ⟨p', hp', hlistens⟩ := listens_of_run (fun _ _ h => h.2.1) hr hi
      cases hp.symm.trans hp'
      obtain ⟨room, sub, hstreams⟩ := hlistens k hold
      obtain ⟨sub', hsub', hlive⟩ := h k hold
      cases hstreams.here.symm.trans hsub'
      have hmessenger := messenger_of_run Messenger.Db.KeepsCount (fun _ _ => trivial)
        (fun _ _ h => h.2.1) hr
      have hbound := Messenger.Db.length_messages_le hmessenger room
      obtain ⟨sub'', hstreams'⟩ := hstreams.step (Messenger.Db.sound_of_run hmessenger) hbound hs
      refine ⟨sub'', hstreams'.here, hstreams.lives hlive hbound hs ?_ hstreams'.here⟩
      rintro rfl
      rcases he with rfl | ⟨_, heq⟩
      · exact hg.2.2 p (List.mem_of_getElem? hp) hold
      · cases heq
    · exact hnew

/-- The texts that `A` singles out are in this room, or they have found it. -/
structure Gathered (A : String → Option WireMessage) (os : List Messenger.Obs)
    (db : Messenger.Db) (room : Nat) : Prop where
  found : ∀ (h : Nat) (text : String) (r : Nat),
    db.handlers[h]? = some ⟨.broadcast text, .found r⟩ → A text ≠ none → r = room
  published : ∀ h r text, .published h r text ∈ os → A text ≠ none → r = room

section
variable {A : String → Option WireMessage} {db db' : Messenger.Db} {mo mos : List Messenger.Obs}
  {room : Nat}

/-- A text finds the room that the map holds. -/
theorem Gathered.step (h : Gathered A mos db room) {e : Messenger.Event}
    (hh : Messenger.Db.Handles db db' e mo)
    (hcurrent : db'.rooms Messenger.roomKey = some room) : Gathered A (mos ++ mo) db' room where
  found h' text r hget hA := (hh.found hget).elim (fun hold => h.found h' text r hold hA)
    fun hroom => Option.some.inj (hroom.symm.trans hcurrent)
  published h' r text hmem hA := by
    rcases List.mem_append.mp hmem with hmem | hmem
    · exact h.published h' r text hmem hA
    · cases hh with
      | stayed _ _ hnot => exact absurd hmem (hnot _ _ _)
      | came _ _ => cases hmem
      | moved _ _ _ _ _ _ hnot => exact absurd hmem (hnot _ _ _)
      | subscribed _ _ => cases List.mem_singleton.mp hmem
      | published hget _ =>
          cases List.mem_singleton.mp hmem
          exact h.found _ _ _ hget hA

theorem posted_of_silent (h : nodeTrace j os = []) :
    (os.filterMap (ofPeer j)).filterMap posted = [] := by
  refine List.filterMap_eq_nil_iff.mpr fun x hx => ?_
  cases x with
  | server _ => rfl
  | node y =>
      have hmem : y ∈ nodeTrace j os := List.mem_filterMap.mpr ⟨_, hx, rfl⟩
      rw [h] at hmem
      cases hmem

/-- Where nothing has been posted, nothing is anywhere. -/
theorem Orderly.gathered {posting : Option Nat} (h : Orderly A j os db posting)
    (hnothing : (os.filterMap (ofPeer j)).filterMap posted = []) (room : Nat) :
    Gathered A (os.filterMap ofMessenger) db room := by
  have horder := h.order
  rw [hnothing, List.filterMap_nil] at horder
  obtain ⟨hpublished, hunderWay⟩ := List.append_eq_nil_iff.mp horder
  refine ⟨fun h' text r hget hA => ?_, fun h' r text hmem hA => ?_⟩
  · have hw : db.underWay h' = some text := by
      simp [Messenger.Db.underWay, hget, Messenger.Handler.underWay]
    rw [h.mine h' text hw hA, Option.bind_some, hw, Option.bind_some,
      Option.toList_eq_nil_iff] at hunderWay
    exact absurd hunderWay hA
  · have htext : text ∈ (os.filterMap ofMessenger).filterMap publication :=
      List.mem_filterMap.mpr ⟨_, hmem, rfl⟩
    exact absurd (List.filterMap_eq_nil_iff.mp hpublished text htext) hA

/-- They are all in the history of the room. -/
theorem Gathered.texts (h : Gathered A mos db room) :
    (mos.filterMap publication).filterMap A =
      (mos.filterMap (Messenger.publishedTo room)).filterMap A := by
  rw [List.filterMap_filterMap, List.filterMap_filterMap]
  refine List.filterMap_congr fun x hx => ?_
  cases x with
  | published h' r text =>
      simp only [publication, Messenger.publishedTo, Option.bind_some]
      by_cases hr : r = room
      · rw [if_pos hr, Option.bind_some]
      · rw [if_neg hr, Option.bind_none]
        by_contra hA
        exact hr (h.published h' r text hx hA)
  | _ => rfl

end

/-- The texts of a server are in the room to which it is subscribed. -/
theorem gathered_of_run (laws : WireLaws C)
    (hrun : Run (step checks) (Reliable sites) (init sites) os net) (hkeys : (keysOf sites).Nodup)
    (hj : sites[j]? = some other) (ownPubKey : String) : ∃ q, net.peers[j]? = some q ∧
      ∀ k, q.link.subscription = some k → ∃ sub, net.messenger.subscriptions[k]? = some sub ∧
        Gathered (envelopeUnder C ownPubKey (C.ownKey other.sk)) (os.filterMap ofMessenger)
          net.messenger sub.room := by
  refine peer_of_run hrun hj (fun os net q => ∀ k, q.link.subscription = some k →
    ∃ sub, net.messenger.subscriptions[k]? = some sub ∧
      Gathered (envelopeUnder C ownPubKey (C.ownKey other.sk)) (os.filterMap ofMessenger)
        net.messenger sub.room) (fun _ h => by cases h) ?_
  intro os net p e t q o hr hnext hp hq h hg hpart k hk
  rw [List.filterMap_append]
  rcases hpart.messenger with ⟨ht, ho, hsame⟩ | ⟨e', -, hstep, hfollow⟩
  · rw [ht, ho, List.append_nil]
    exact h k (hsame ▸ hk)
  · have hs := Messenger.Db.step_cases hstep
    obtain ⟨q', hq', hlive⟩ := live_of_run hnext hj
    cases hq.symm.trans hq'
    obtain ⟨sub, hsub, hlives⟩ := hlive k hk
    -- the room it lives in is the one the map holds
    have hcurrent := (Messenger.Db.sound_current_of_run (undisturbed_of_run hnext)).2.live sub
      (List.mem_of_getElem? hsub) hlives
    refine ⟨sub, hsub, Gathered.step ?_ hs.handles hcurrent⟩
    rcases subscription_follow hs p.link (hfollow ▸ hk) with
      hold | ⟨h', last, room, hh, hget, -, -, -, -⟩
    · obtain ⟨sub₀, hsub₀, hgathered⟩ := h k hold
      obtain ⟨sub₁, hsub₁, hroom, -⟩ := Messenger.Db.subscription_before hs
        (List.getElem?_eq_some_iff.mp hsub₀).1 hsub
      cases hsub₀.symm.trans hsub₁
      exact hroom ▸ hgathered
    · -- there was no subscription, so there was no coordinator
      obtain ⟨p₁, hp₁, hlinked⟩ := linked_of_run hr hj
      obtain ⟨p₂, hp₂, hsilent⟩ := silent_of_run hr hj
      obtain ⟨p₃, hp₃, horderly⟩ := orderly_of_run laws (fun _ _ h => h.1) hr hkeys hj ownPubKey
      cases hp.symm.trans hp₁
      cases hp.symm.trans hp₂
      cases hp.symm.trans hp₃
      have hnone : p.link.subscription = none := by
        obtain ⟨progress, hprogress, hdone⟩ := hlinked.subscribing h' hh
        cases hget.symm.trans hprogress
        cases hsubscription : p.link.subscription with
        | none => rfl
        | some _ => cases hdone (by rw [hsubscription]; rfl)
      exact horderly.gathered (posted_of_silent (hsilent hnone).2) sub.room

/-! ## All of it -/

/-- The server has read the texts of its room to the last. -/
def CaughtUp (db : Messenger.Db) (link : Link) : Prop :=
  link.stream = [] ∧ ∃ k sub, link.subscription = some k ∧ db.subscriptions[k]? = some sub ∧
    sub.nextEvent.toNat = (db.roomAt sub.room).messages.length

/-- The server has nothing left to post, and its last post is answered. -/
def Through (db : Messenger.Db) (p : Peer C) : Prop :=
  p.system.node.outbox = [] ∧ p.waits db = false

/-- What a server that has caught up has heard is all that is in its room. -/
theorem heard_of_caughtUp (hrun : Run (step checks) (Reliable sites) (init sites) os net)
    (hi : sites[i]? = some site) (hp : net.peers[i]? = some p) {k : Nat}
    {sub : Messenger.Subscription} (hstream : p.link.stream = [])
    (hk : p.link.subscription = some k) (hsub : net.messenger.subscriptions[k]? = some sub)
    (hend : sub.nextEvent.toNat = (net.messenger.roomAt sub.room).messages.length) :
    os.filterMap (heardText i) =
      (os.filterMap ofMessenger).filterMap (Messenger.publishedTo sub.room) := by
  obtain ⟨p₁, hp₁, hlinked⟩ := linked_of_run hrun hi
  obtain ⟨p₂, hp₂, hlistens⟩ := listens_of_run (fun _ _ h => h.2.1) hrun hi
  cases hp.symm.trans hp₁
  cases hp.symm.trans hp₂
  obtain ⟨room, sub', hstreams⟩ := hlistens k hk
  cases hsub.symm.trans hstreams.here
  obtain rfl := hstreams.reads
  have hreturned := (hlinked.returned k hk).2
  rw [hstream, List.append_nil, filterMap_returnedText, hstreams.returnedTexts, List.drop_zero,
    hend, List.take_length] at hreturned
  rw [← hreturned, Messenger.Db.messages_of_run (messenger_run hrun)]

/-- Whatever a server published is in the room in which another one's subscription lives. -/
theorem published_of_live (laws : WireLaws C)
    (hrun : Run (step checks) (Reliable sites) (init sites) os net) (hkeys : (keysOf sites).Nodup)
    (hi : sites[i]? = some site) (hj : sites[j]? = some other) (hp : net.peers[i]? = some p)
    {k : Nat} {sub : Messenger.Subscription} (hk : p.link.subscription = some k)
    (hsub : net.messenger.subscriptions[k]? = some sub) (ownPubKey : String) :
    Gathered (envelopeUnder C ownPubKey (C.ownKey other.sk)) (os.filterMap ofMessenger)
      net.messenger sub.room := by
  obtain ⟨q, hq, hgathered⟩ := gathered_of_run laws hrun hkeys hj ownPubKey
  obtain ⟨q₁, hq₁, hsilent⟩ := silent_of_run hrun hj
  obtain ⟨q₂, hq₂, horderly⟩ := orderly_of_run laws (fun _ _ h => h.1) hrun hkeys hj ownPubKey
  obtain ⟨q₃, hq₃, hliveJ⟩ := live_of_run hrun hj
  obtain ⟨p₁, hp₁, hliveI⟩ := live_of_run hrun hi
  cases hq.symm.trans hq₁
  cases hq.symm.trans hq₂
  cases hq.symm.trans hq₃
  cases hp.symm.trans hp₁
  cases hsubscription : q.link.subscription with
  | none => exact horderly.gathered (posted_of_silent (hsilent hsubscription).2) sub.room
  | some k' =>
      -- both subscriptions live, so both are in the room that the map holds
      have hlive := (Messenger.Db.sound_current_of_run (undisturbed_of_run hrun)).2.live
      have hroom {k : Nat} {sub : Messenger.Subscription}
          (hsub : net.messenger.subscriptions[k]? = some sub)
          (h : ∃ sub, net.messenger.subscriptions[k]? = some sub ∧ sub.live = true) :
          net.messenger.rooms Messenger.roomKey = some sub.room := by
        obtain ⟨sub', hsub', hlives⟩ := h
        cases hsub.symm.trans hsub'
        exact hlive sub (List.mem_of_getElem? hsub) hlives
      obtain ⟨sub₀, hsub₀, hgathered⟩ := hgathered k' hsubscription
      have hsame : sub₀.room = sub.room := Option.some.inj
        ((hroom hsub₀ (hliveJ k' hsubscription)).symm.trans (hroom hsub (hliveI k hk)))
      exact hsame ▸ hgathered

end

end Network

namespace Sample

open Network

end Sample

end MpcServer

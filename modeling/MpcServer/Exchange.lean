import MpcServer.Correspondence

/-!
# What one server receives of another

In order, and nothing twice, as long as no room gets `2 ^ 16` texts: a coordinator
posts one message at a time, a room keeps its texts in order, and a subscription
returns them in order.
-/

namespace MpcServer

open Rust Machine

variable {C : Crates}

namespace Network

/-! ## What is received and what is sent -/

/-- What a server has received under a key. -/
def receivedFrom (i : Nat) (key : String) (os : List (Obs C)) : List WireMessage :=
  ((os.filterMap (ofPeer i)).filterMap receivedWire).filter (·.senderPublicKey = key)

/-- What the coordinator of a server has given its sink. -/
def sentFrom (i : Nat) (os : List (Obs C)) : List CoreMessage :=
  (nodeTrace i os).filterMap Node.given

variable (C) in
/-- The envelope that a text brings a server of the key `ownPubKey`, if it is one under `key`. -/
def envelopeUnder (ownPubKey key text : String) : Option WireMessage :=
  (accepted C ownPubKey (.ok text)).filter (·.senderPublicKey = key)

/-- The text of a publication, in whatever room. -/
def publication : Messenger.Obs → Option String
  | .published _ _ text => some text
  | _ => none

/-- A view that shows less shows a part, in the same order. -/
theorem filterMap_sublist {α β : Type} {f g : α → Option β} {l : List α}
    (h : ∀ x ∈ l, ∀ b, f x = some b → g x = some b) :
    (l.filterMap f).Sublist (l.filterMap g) := by
  induction l with
  | nil => exact List.Sublist.slnil
  | cons x l ih =>
      have ih := ih fun y hy => h y (List.mem_cons_of_mem _ hy)
      cases hf : f x with
      | some b =>
          rw [List.filterMap_cons_some hf, List.filterMap_cons_some (h x List.mem_cons_self b hf)]
          exact ih.cons_cons b
      | none =>
          rw [List.filterMap_cons_none hf]
          cases hg : g x with
          | none => rwa [List.filterMap_cons_none hg]
          | some b =>
              rw [List.filterMap_cons_some hg]
              exact ih.cons b

section
variable {checks : Bool} {guard : Network C → Event → Prop} {sites : List (Site C)}
  {os o : List (Obs C)} {net t : Network C} {e : Event} {i j : Nat} {site other : Site C}
  {p q : Peer C} {text key : String}

/-- What is received is what is heard, item by item. -/
theorem Tracks.receivedFrom (h : Tracks site i os p) (key : String) :
    receivedFrom i key os = os.filterMap fun x => (heardItem i x).bind fun item =>
      (accepted C (C.ownKey site.sk) item).filter (·.senderPublicKey = key) := by
  rw [Network.receivedFrom, h.received, List.filterMap_filterMap, List.filter_filterMap]
  refine List.filterMap_congr fun x _ => ?_
  cases heardItem i x <;> rfl

/-- A broken item brings nothing. -/
theorem filter_accepted_item {intact : Bool} {ownPubKey : String} {w : WireMessage}
    (h : (accepted C ownPubKey (item text intact)).filter (·.senderPublicKey = key) = some w) :
    envelopeUnder C ownPubKey key text = some w := by
  cases intact with
  | true => exact h
  | false => cases h

theorem Tracks.receivedFrom_sublist (h : Tracks site i os p) (key : String) :
    (Network.receivedFrom i key os).Sublist
      ((os.filterMap (heardText i)).filterMap (envelopeUnder C (C.ownKey site.sk) key)) := by
  rw [h.receivedFrom, List.filterMap_filterMap]
  refine filterMap_sublist fun x _ w hw => ?_
  cases x with
  | heard j text intact =>
      by_cases hji : j = i
      · simp only [heardItem, if_pos hji, Option.bind_some] at hw
        simp only [heardText, if_pos hji, Option.bind_some]
        exact filter_accepted_item hw
      · simp [heardItem, hji] at hw
  | _ => cases hw

/-! ## Whose text it is -/

theorem eq_of_key (hkeys : (keysOf sites).Nodup) {k : Nat} {third : Site C}
    (hj : sites[j]? = some other) (hk : sites[k]? = some third)
    (h : C.ownKey third.sk = C.ownKey other.sk) : k = j := by
  have hkey : (keysOf sites)[k]? = (keysOf sites)[j]? := by
    simp [keysOf, hj, hk, h]
  have hlt : k < (keysOf sites).length := by
    rw [keysOf, List.length_map]
    exact (List.getElem?_eq_some_iff.mp hk).1
  exact (List.getElem?_inj hlt hkeys).mp hkey

theorem mem_keysOf (hj : sites[j]? = some other) : C.ownKey other.sk ∈ keysOf sites :=
  List.mem_map_of_mem (List.mem_of_getElem? hj)

/-- A stranger's text is no envelope under a server's key. -/
theorem envelopeUnder_of_unforged {ownPubKey : String} (h : Unforged C (keysOf sites) text)
    (hkey : key ∈ keysOf sites) : envelopeUnder C ownPubKey key text = none := by
  refine Option.eq_none_iff_forall_ne_some.mpr fun w hw => ?_
  obtain ⟨haccepted, hunder⟩ := Option.filter_eq_some_iff.mp hw
  obtain ⟨_, heq, hparse⟩ := doParseSigned_of_accepted haccepted
  cases heq
  unfold Unforged at h
  rw [hparse] at h
  exact h (of_decide_eq_true hunder ▸ hkey)

section
variable (laws : WireLaws C)
include laws

/-- The envelope of a server's own text. -/
theorem envelopeUnder_envelopeText {sk : C.SecretKey} {m : CoreMessage}
    (h : envelopeText (.join () sk) m = some text) (ownPubKey key : String) :
    envelopeUnder C ownPubKey key text =
      if C.ownKey sk ≠ ownPubKey ∧ C.ownKey sk = key then some (signed C sk m) else none := by
  rw [envelopeUnder, accepted_envelopeText laws h]
  by_cases hown : C.ownKey sk = ownPubKey
  · simp [hown]
  · by_cases hkey : C.ownKey sk = key
    · subst hkey
      simp [hown, signed, Option.filter]
    · simp [hown, hkey, signed, Option.filter]

/-- A text that a server posted is no envelope under another one's key. -/
theorem envelopeUnder_of_other (hrun : Run (step checks) guard (init sites) os net)
    (hkeys : (keysOf sites).Nodup) (hj : sites[j]? = some other) {k : Nat} (hkj : k ≠ j)
    {m : CoreMessage} {up : Bool} (h : .peer k (.node (.attempted m (some text) up)) ∈ os)
    (ownPubKey : String) : envelopeUnder C ownPubKey (C.ownKey other.sk) text = none := by
  obtain ⟨third, hk⟩ := site_of_mem hrun h
  obtain ⟨_, -, -, hsends⟩ := node_of_run hrun hk
  rw [envelopeUnder_envelopeText laws (hsends.texts m text up (mem_nodeTrace.mpr h)),
    if_neg fun hcond => hkj (eq_of_key hkeys hj hk hcond.2)]

end

/-! ## One post at a time -/

/-- What was posted by a server has been published in this order, in whatever room, but for
its last post, which may be under way. `A` singles out its texts. -/
structure Orderly (A : String → Option WireMessage) (j : Nat) (os : List (Obs C))
    (db : Messenger.Db) (posting : Option Nat) : Prop where
  mine : ∀ h text, db.underWay h = some text → A text ≠ none → posting = some h
  order : ((os.filterMap ofMessenger).filterMap publication).filterMap A ++
      ((posting.bind db.underWay).bind A).toList =
    ((os.filterMap (ofPeer j)).filterMap posted).filterMap A

section
variable {A : String → Option WireMessage} {db db' : Messenger.Db} {posting : Option Nat}

/-- The messenger acts, and the server posts nothing. -/
theorem Orderly.carried (h : Orderly A j os db posting) {e : Messenger.Event}
    {mo : List Messenger.Obs} (hc : Messenger.Db.Carries db db' e mo)
    (hnew : ∀ text, e = .request (.broadcast text) → A text = none)
    (hmessenger : o.filterMap ofMessenger = mo)
    (hposted : (o.filterMap (ofPeer j)).filterMap posted = []) :
    Orderly A j (os ++ o) db' posting := by
  have hgoal (hmine : ∀ h text, db'.underWay h = some text → A text ≠ none → posting = some h)
      (hdue : (mo.filterMap publication).filterMap A ++
        ((posting.bind db'.underWay).bind A).toList =
          ((posting.bind db.underWay).bind A).toList) : Orderly A j (os ++ o) db' posting := by
    refine ⟨hmine, ?_⟩
    simp only [List.filterMap_append, hmessenger, hposted, List.append_nil]
    rw [List.append_assoc, hdue]
    exact h.order
  cases hc with
  | stayed ht hnot =>
      have hnone : mo.filterMap publication = [] := by
        refine List.filterMap_eq_nil_iff.mpr fun x hx => ?_
        cases x with
        | published h' room text => exact absurd hx (hnot _ _ _)
        | _ => rfl
      refine hgoal (ht ▸ h.mine) ?_
      rw [hnone, ht]
      rfl
  | came message ht =>
      have hA : A message = none := hnew message rfl
      refine hgoal (fun h' text hw hne => ?_) ?_
      · rw [ht, Function.update_apply] at hw
        split at hw
        · cases hw
          exact absurd hA hne
        · exact h.mine h' text hw hne
      · cases posting with
        | none => rfl
        | some h' =>
            simp only [List.filterMap_nil, List.nil_append, Option.bind_some, ht,
              Function.update_apply]
            split
            · rename_i heq
              subst heq
              simp [Messenger.Db.underWay, hA]
            · rfl
  | @published h' message room _ hw ht =>
      refine hgoal (fun h'' text hw' hne => ?_) ?_
      · rw [ht, Function.update_apply] at hw'
        split at hw'
        · cases hw'
        · exact h.mine h'' text hw' hne
      · cases hA : A message with
        | none =>
            cases posting with
            | none => simp [publication, hA]
            | some h'' =>
                by_cases heq : h'' = h'
                · simp [publication, hA, ht, heq, hw]
                · simp [publication, hA, ht, heq]
        | some w =>
            -- it is the one post of the server that was under way
            rw [h.mine h' message hw (by simp [hA])]
            simp [publication, hA, ht, hw]

/-- The server posts, and has nothing else under way. -/
theorem Orderly.posts (h : Orderly A j os db posting) (hfree : posting.bind db.underWay = none)
    {m : CoreMessage} {up : Bool} :
    Orderly A j (os ++ [.peer j (.node (.attempted m (some text) up))])
      (db.addHandler (.broadcast text) .start) (some db.handlers.length) := by
  have hw : (db.addHandler (.broadcast text) .start).underWay =
      Function.update db.underWay db.handlers.length (some text) :=
    Messenger.Db.underWay_addHandler _ _ _
  have hpeer : [(Obs.peer j (.node (.attempted m (some text) up)) : Obs C)].filterMap (ofPeer j) =
      [.node (.attempted m (some text) up)] := by simp [ofPeer]
  refine ⟨fun h' text' hw' hne => ?_, ?_⟩
  · rw [hw, Function.update_apply] at hw'
    split at hw'
    · rename_i heq
      rw [heq]
    · rw [h.mine h' text' hw' hne, Option.bind_some, hw'] at hfree
      cases hfree
  · have horder := h.order
    rw [hfree] at horder
    simp only [Option.bind_none, Option.toList_none, List.append_nil] at horder
    simp only [List.filterMap_append, hpeer, hw, ← horder]
    cases hA : A text <;> simp [ofMessenger, posted, hA]

end

/-- Only a send touches the sink and is posted. -/
theorem quiet_of_step {s s' : System C} {e : System.Event} {o : List (System.Obs C)}
    (h : s.step e = some (s', o)) (he : ∀ fate, e ≠ .node (.sendOne fate)) :
    s'.node.sink = s.node.sink ∧ ∀ m text up, .node (.attempted m text up) ∉ o := by
  have hnode {n n' : Node C} {e' : MpcServer.Event} {o' : List (MpcServer.Obs C)}
      (hn : Node.Steps n e' n' o') (he' : ∀ fate, e' ≠ .sendOne fate) : n'.sink = n.sink ∧
        ∀ m text up, (.node (.attempted m text up) : System.Obs C) ∉ o'.map .node := by
    cases hn.passes with
    | attempted _ _ _ _ _ => exact absurd rfl (he' _)
    | given hsink _ hnone =>
        refine ⟨hsink, fun m text up hmem => ?_⟩
        obtain ⟨y, hy, heq⟩ := List.mem_map.mp hmem
        cases heq
        cases hnone _ hy
  cases System.step_cases h with
  | server _ => exact ⟨rfl, by simp⟩
  | forward _ _ hn => exact hnode hn (by simp)
  | node _ _ hn => exact hnode hn fun fate heq => he fate (heq ▸ rfl)

theorem unposted_of_step {s s' : System C} {e : System.Event} {o : List (System.Obs C)}
    (h : s.step e = some (s', o)) (he : ∀ fate, e ≠ .node (.sendOne fate)) :
    o.filterMap posted = [] := by
  refine List.filterMap_eq_nil_iff.mpr fun x hx => ?_
  unfold posted
  split
  · exact absurd hx ((quiet_of_step h he).2 _ _ _)
  · rfl

theorem posts_of_send {s s' : System C} {fate : PostFate} {m : CoreMessage}
    {text : Option String} {up : Bool}
    (h : s.step (.node (.sendOne fate)) = some (s', [.node (.attempted m text up)])) :
    Posts s.node.sink fate m s'.node.sink up text := by
  generalize ho : [System.Obs.node (.attempted m text up)] = o at h
  cases System.step_cases h with
  | node _ _ hn =>
      cases hn.passes with
      | attempted _ hpost hsink _ ho' =>
          subst ho' hsink
          cases ho
          exact hpost
      | given _ _ hnone =>
          obtain ⟨y, hy, heq⟩ := List.mem_map.mp (ho ▸ List.mem_singleton_self _)
          cases heq
          cases hnone _ hy

/-- Whoever has brought a text to the messenger had a sink. -/
theorem sink_of_posted {s s' : System C} {fate : PostFate} {m : CoreMessage} {up : Bool}
    (h : s.step (.node (.sendOne fate)) = some (s', [.node (.attempted m (some text) up)])) :
    s.node.sink.isSome = true := by
  obtain ⟨state, hstate, -⟩ := (posts_of_send h).text rfl
  rw [hstate]
  rfl

/-- Where the post before has been answered, it is not under way. -/
theorem free_of_waits {db : Messenger.Db} {p : Peer C} (hsink : p.system.node.sink.isSome = true)
    (h : p.waits db = false) : p.link.posting.bind db.underWay = none := by
  simp only [Peer.waits, hsink, Bool.true_and] at h
  cases hposting : p.link.posting with
  | none => rfl
  | some h' => simpa [hposting] using h

theorem follow_posting (db : Messenger.Db) (o : List Messenger.Obs) (link : Link) :
    (o.foldl (Link.follow db) link).posting = link.posting := by
  induction o generalizing link with
  | nil => rfl
  | cons x o ih =>
      rw [List.foldl_cons, ih]
      unfold Link.follow
      split
      · split <;> rfl
      · split <;> rfl
      · rfl
      · rfl

/-- **One post at a time.** Whatever a server posts is published in the order in which it
was posted. -/
theorem orderly_of_run (laws : WireLaws C) (hforgery : ∀ net e, guard net e → NoForgery sites net e)
    (hrun : Run (step checks) guard (init sites) os net) (hkeys : (keysOf sites).Nodup)
    (hj : sites[j]? = some other) (ownPubKey : String) :
    ∃ q, net.peers[j]? = some q ∧
      Orderly (envelopeUnder C ownPubKey (C.ownKey other.sk)) j os net.messenger q.link.posting := by
  refine peer_of_run hrun hj (fun os net q => Orderly (envelopeUnder C ownPubKey
    (C.ownKey other.sk)) j os net.messenger q.link.posting)
    ⟨fun h text hw => (by cases hw), rfl⟩ ?_
  intro os net p e t q o _ hnext _ _ h hg hpart
  have hstill (ht : t.messenger = net.messenger) (ho : o.filterMap ofMessenger = [])
      (hposted : (o.filterMap (ofPeer j)).filterMap posted = []) :
      Orderly (envelopeUnder C ownPubKey (C.ownKey other.sk)) j (os ++ o) t.messenger
        p.link.posting :=
    h.carried (.stayed (ht ▸ rfl) (by simp) : Messenger.Db.Carries _ _ (.poll 0) [])
      (fun _ heq => by cases heq) ho hposted
  have hcame (task : Messenger.Task) (ht : t.messenger = net.messenger.addHandler task .start)
      (hnew : ∀ text, task = .broadcast text →
        envelopeUnder C ownPubKey (C.ownKey other.sk) text = none)
      (ho : o.filterMap ofMessenger = []) (hposted : (o.filterMap (ofPeer j)).filterMap posted = []) :
      Orderly (envelopeUnder C ownPubKey (C.ownKey other.sk)) j (os ++ o) t.messenger
        p.link.posting :=
    h.carried (Messenger.Db.Handles.came task ht).carries
      (fun text heq => hnew text (by simpa using heq)) ho hposted
  cases hpart with
  | acted ht htraffic _ hstep =>
      refine hstill ht ofMessenger_peer ?_
      rw [ofPeer_self]
      exact unposted_of_step hstep fun fate heq => by
        subst heq
        cases htraffic
  | subscribed ht _ => exact hcame _ ht (by simp) rfl rfl
  | posted ht hwaits hstep =>
      rw [ht]
      exact h.posts (free_of_waits (sink_of_posted hstep) hwaits)
  | missed ht _ => exact hstill ht rfl (by simp [ofPeer, posted])
  | heard ht _ hstep =>
      refine hstill ht ?_ ?_
      · rw [List.filterMap_cons_none rfl, ofMessenger_peer]
      · rw [List.filterMap_cons_none rfl, ofPeer_self]
        exact unposted_of_step hstep (by simp)
  | @relayed t e mo hstep =>
      rw [show (p.follow net.messenger mo).link.posting = p.link.posting from
        follow_posting net.messenger mo p.link]
      refine h.carried (Messenger.Db.step_cases hstep).handles.carries (fun text heq => ?_)
        ofMessenger_messenger (by rw [ofPeer_messenger]; rfl)
      subst heq
      exact envelopeUnder_of_unforged (hforgery _ _ hg) (mem_keysOf hj)
  | elsewhere hpeer _ _ hothers =>
      have hnothing : (o.filterMap (ofPeer j)).filterMap posted = [] := by rw [hpeer]; rfl
      cases hothers with
      | still ht ho => exact hstill ht ho hnothing
      | subscribed ht => exact hcame _ ht (by simp) rfl hnothing
      | posted hne ht =>
          refine hcame _ ht (fun text heq => ?_) rfl hnothing
          cases heq
          exact envelopeUnder_of_other laws hnext hkeys hj hne
            (List.mem_append_right _ (List.mem_singleton_self _)) ownPubKey

/-! ## What a server listens to -/

/-- No room gets a text too many. -/
def FewTexts (net : Network C) : Event → Prop
  | .messenger e => net.messenger.KeepsCount e
  | _ => True

instance (net : Network C) : (e : Event) → Decidable (FewTexts net e)
  | .messenger e => inferInstanceAs (Decidable (net.messenger.KeepsCount e))
  | .peer _ _ | .subscribe _ | .send _ _ | .hear _ _ _ => inferInstanceAs (Decidable True)

/-- What a step is to the messenger and to a server's subscription. -/
theorem Part.messenger (h : Part checks net i p e t q o) :
    t.messenger = net.messenger ∧ o.filterMap ofMessenger = [] ∧
        q.link.subscription = p.link.subscription ∨
      ∃ e', (e = .messenger e' ∨ ∃ task, e' = .request task) ∧
        Messenger.Db.step checks net.messenger e' =
          some (t.messenger, o.filterMap ofMessenger) ∧
        q.link.subscription =
          ((o.filterMap ofMessenger).foldl (Link.follow net.messenger) p.link).subscription := by
  have hrequest (task : Messenger.Task)
      (ht : t.messenger = net.messenger.addHandler task .start) :
      Messenger.Db.step checks net.messenger (.request task) = some (t.messenger, []) := by
    rw [ht]
    rfl
  cases h with
  | acted ht _ _ _ => exact .inl ⟨ht, ofMessenger_peer, rfl⟩
  | subscribed ht _ => exact .inr ⟨_, .inr ⟨_, rfl⟩, hrequest _ ht, rfl⟩
  | posted ht _ _ => exact .inr ⟨_, .inr ⟨_, rfl⟩, hrequest _ ht, rfl⟩
  | missed ht _ => exact .inl ⟨ht, rfl, rfl⟩
  | heard ht _ _ =>
      exact .inl ⟨ht, by rw [List.filterMap_cons_none rfl, ofMessenger_peer], rfl⟩
  | relayed hstep =>
      rw [ofMessenger_messenger]
      exact .inr ⟨_, .inl rfl, hstep, rfl⟩
  | elsewhere _ _ _ hothers =>
      cases hothers with
      | still ht ho => exact .inl ⟨ht, ho, rfl⟩
      | subscribed ht => exact .inr ⟨_, .inr ⟨_, rfl⟩, hrequest _ ht, rfl⟩
      | posted _ ht => exact .inr ⟨_, .inr ⟨_, rfl⟩, hrequest _ ht, rfl⟩

/-- A subscription that was not there has just been created, for the server's own handler. -/
theorem subscription_follow {db db' : Messenger.Db} {e : Messenger.Event} {mo : List Messenger.Obs}
    (hs : Messenger.Db.Steps checks db e db' mo) (link : Link) {k : Nat}
    (h : (mo.foldl (Link.follow db) link).subscription = some k) :
    link.subscription = some k ∨
      ∃ h' last room, link.subscribing = some h' ∧
        db.handlers[h']? = some ⟨.subscribe last, .found room⟩ ∧ k = db.subscriptions.length ∧
        e = .finish h' ∧ mo = [.subscribed h' room] ∧
        ∃ sub, db'.subscriptions[k]? = some sub ∧ sub.live = true := by
  cases hs with
  | @subscribed h' last room nextEvent hget _ =>
      simp only [List.foldl_cons, List.foldl_nil, Link.follow] at h
      split at h
      · cases h
        exact .inr ⟨h', last, room, ‹_›, hget, rfl, rfl, rfl, _, List.getElem?_concat_length, rfl⟩
      · exact .inl h
  | returned _ _ _ _ _ =>
      simp only [List.foldl_cons, List.foldl_nil, Link.follow] at h
      split at h <;> exact .inl h
  | _ => exact .inl h

/-- A server listens to the texts of one room, from the first on. -/
def Listens (os : List (Obs C)) (db : Messenger.Db) (link : Link) : Prop :=
  ∀ k, link.subscription = some k →
    ∃ room sub, Messenger.Db.Streams k room 0 (os.filterMap ofMessenger) db sub

theorem listens_of_run (hfew : ∀ net e, guard net e → FewTexts net e)
    (hrun : Run (step checks) guard (init sites) os net) (hi : sites[i]? = some site) :
    ∃ p, net.peers[i]? = some p ∧ Listens os net.messenger p.link := by
  refine peer_of_run hrun hi (fun os net p => Listens os net.messenger p.link)
    (fun _ h => by cases h) ?_
  intro os net p e t q o hr _ hp _ h hg hpart k hk
  have hmessenger := messenger_of_run Messenger.Db.KeepsCount (fun _ _ => trivial)
    (fun _ _ => hfew _ _) hr
  rw [List.filterMap_append]
  rcases hpart.messenger with ⟨ht, ho, hsame⟩ | ⟨e', -, hstep, hfollow⟩
  · rw [ht, ho, List.append_nil]
    exact h k (hsame ▸ hk)
  · have hs := Messenger.Db.step_cases hstep
    have hsound := Messenger.Db.sound_of_run hmessenger
    rcases subscription_follow hs p.link (hfollow ▸ hk) with
      hold | ⟨h', last, room, hh, hget, rfl, rfl, ho, -⟩
    · obtain ⟨room, sub, hstreams⟩ := h k hold
      obtain ⟨sub', hstreams'⟩ := hstreams.step hsound
        (Messenger.Db.length_messages_le hmessenger room) hs
      exact ⟨room, sub', hstreams'⟩
    · -- its handler asked for all of them
      obtain ⟨p', hp', hlinked⟩ := linked_of_run hr hi
      cases hp.symm.trans hp'
      obtain ⟨progress, hprogress, -⟩ := hlinked.subscribing h' hh
      cases hget.symm.trans hprogress
      rw [ho] at hstep ⊢
      have hsubscribes : Messenger.Db.Subscribes checks net.messenger h' none room 0
          t.messenger := ⟨hget, rfl, hstep⟩
      obtain ⟨sub, hstreams⟩ := hsubscribes.streams (Nat.zero_le _)
      refine ⟨room, sub, hstreams.unseen ?_⟩
      rw [List.filterMap_append, Messenger.Db.unreturned hmessenger]
      rfl

/-! ## In order -/

/-- What a server has heard was published, in this order. -/
theorem heard_sublist (hfew : ∀ net e, guard net e → FewTexts net e)
    (hrun : Run (step checks) guard (init sites) os net) (hi : sites[i]? = some site) :
    (os.filterMap (heardText i)).Sublist ((os.filterMap ofMessenger).filterMap publication) := by
  obtain ⟨p, hp, hlinked⟩ := linked_of_run hrun hi
  obtain ⟨p', hp', hlistens⟩ := listens_of_run hfew hrun hi
  cases hp.symm.trans hp'
  cases hsub : p.link.subscription with
  | none =>
      rw [(hlinked.unread hsub).2]
      exact List.nil_sublist _
  | some k =>
      obtain ⟨room, sub, hstreams⟩ := hlistens k hsub
      have hread : (os.filterMap (heardText i)).Sublist (net.messenger.roomAt room).messages := by
        refine (List.sublist_append_left _ p.link.stream).trans ?_
        rw [← (hlinked.returned k hsub).2, filterMap_returnedText, hstreams.returnedTexts,
          List.drop_zero]
        exact List.take_sublist _ _
      refine hread.trans ?_
      rw [Messenger.Db.messages_of_run (messenger_run hrun)]
      refine filterMap_sublist fun x _ text hx => ?_
      unfold Messenger.publishedTo at hx
      split at hx
      · split at hx
        · exact hx
        · cases hx
      · cases hx

/-- The texts that a server has posted are those of what it attempted. -/
theorem posted_sublist (laws : WireLaws C) (hrun : Run (step checks) guard (init sites) os net)
    (hj : sites[j]? = some other) (ownPubKey : String) :
    (((os.filterMap (ofPeer j)).filterMap posted).filterMap
        (envelopeUnder C ownPubKey (C.ownKey other.sk))).Sublist
      (((nodeTrace j os).filterMap Node.toBroker).map (signed C other.sk)) := by
  obtain ⟨q, -, -, hsends⟩ := node_of_run hrun hj
  unfold nodeTrace at hsends ⊢
  generalize os.filterMap (ofPeer j) = l at hsends ⊢
  rw [List.filterMap_filterMap, List.map_filterMap, List.filterMap_filterMap]
  refine filterMap_sublist fun x hx w hw => ?_
  obtain ⟨text, htext, hunder⟩ := Option.bind_eq_some_iff.mp hw
  unfold posted at htext
  split at htext
  · rename_i m text' up
    cases htext
    have hmem : .attempted m (some text) up ∈ l.filterMap System.nodeObs :=
      List.mem_filterMap.mpr ⟨_, hx, rfl⟩
    rw [envelopeUnder_envelopeText laws (hsends.texts m text up hmem)] at hunder
    split at hunder
    · exact hunder
    · cases hunder
  · cases htext

end

end Network

namespace Sample

open Network

/-- In a second session Alice's player says its first message, too. -/
def aliceSpeaksAgain : List Network.Event :=
  [.peer 1 (.server (.call (.keygen (keygenOf "k2" [.alice, .bob, .carol] 1)) true)),
    .peer 1 (.server (.announce 0)), .peer 1 (.server (.queue 0)), .peer 1 .forward,
    .peer 1 (.node (.mail allWell)), .peer 1 (.node (.tickKG 1 0)), .peer 1 (.node (.mail allWell)),
    .send 1 .answered, .messenger (.read 3), .messenger (.finish 3)]

def aliceSpeaksTwice : List Network.Event :=
  bothSubscribe ++ startsKeygen 0 ++ startsKeygen 1 ++ aliceSpeaks ++ aliceSpeaksAgain

end Sample

end MpcServer

import MpcServer.System
import MpcServer.Actors.Speech
import MpcServer.Messenger.Stream

/-!
# Servers and the messenger between them

A server subscribes to the messenger before it has a coordinator. What comes down
the stream goes to the coordinator, and what the coordinator gives its sink is
posted to the messenger, one message after the other. Between two steps of a
server anything can happen at the others and in the messenger, and strangers can
subscribe there and post what they like.
-/

namespace MpcServer

open Rust Machine

variable (C : Crates)

/-- What a server is started with. -/
structure Site where
  sk : C.SecretKey
  shares : Tree C
  results : Tree C

/-- What connects a server with the messenger. -/
structure Link where
  /-- the handler of its `GET subscribe` -/
  subscribing : Option Nat
  /-- the subscription which that handler has created -/
  subscription : Option Nat
  /-- the handler of its last `POST broadcast` -/
  posting : Option Nat
  /-- what came down the stream and was not read -/
  stream : List String
  deriving DecidableEq, Repr

/-- A server and its link. -/
structure Peer where
  system : System C
  link : Link

/-- The servers over one messenger. -/
structure Network where
  peers : List (Peer C)
  messenger : Messenger.Db

variable {C}

namespace Link

/-- Before `SmClient::subscribe`. -/
def init : Link := { subscribing := none, subscription := none, posting := none, stream := [] }

/-- `join_computation_via_messenger` returns once it is subscribed. -/
def admits (link : Link) : System.Event → Bool
  | .server (.join true) => link.subscription.isSome
  | _ => true

/-- What a step of the messenger from `db` on is to the server: its subscription begins,
or a text comes down its stream. -/
def follow (db : Messenger.Db) (link : Link) : Messenger.Obs → Link
  | .subscribed h _ =>
      if link.subscribing = some h then
        { link with subscription := some db.subscriptions.length }
      else link
  | .returned k _ text =>
      if link.subscription = some k then { link with stream := link.stream ++ [text] } else link
  | .found _ _ | .published _ _ _ => link

end Link

namespace Peer

/-- A server as it is started. -/
def start (site : Site C) : Peer C :=
  { system := System.init site.sk site.shares site.results, link := .init }

/-- In its critical section `send_one` waits until its post is answered. A post whose answer
is lost has lost the sink, and nobody waits for it. -/
def waits (db : Messenger.Db) (p : Peer C) : Bool :=
  p.system.node.sink.isSome && p.link.posting.any fun h => (db.underWay h).isSome

/-- The events in which the coordinator acts. -/
def needsCoordinator : System.Event → Bool
  | .node (.wire _ _) | .node .finished | .node (.sendOne _) | .node (.mail _)
  | .node (.fire _) | .node (.retry _) => true
  | _ => false

/-- A step of the server; while the coordinator waits it does not act. -/
def take (db : Messenger.Db) (p : Peer C) (e : System.Event) :
    Option (System C × List (System.Obs C)) :=
  if p.waits db && needsCoordinator e then none else p.system.step e

/-- What a step of the messenger is to the server. -/
def follow (db : Messenger.Db) (o : List Messenger.Obs) (p : Peer C) : Peer C :=
  { p with link := o.foldl (Link.follow db) p.link }

end Peer

namespace Network

/-- What happens next. A step of a server is its own; `send` and `hear` are those in which
it posts a message and takes up an item of its stream, whole or broken. -/
inductive Event
  | peer (i : Nat) (e : System.Event)
  | subscribe (i : Nat)
  | send (i : Nat) (fate : PostFate)
  | hear (i : Nat) (intact : Bool) (amb : Ambient)
  | messenger (e : Messenger.Event)

variable (C) in
/-- What is recorded of a step. -/
inductive Obs
  | peer (i : Nat) (o : System.Obs C)
  | heard (i : Nat) (text : String) (intact : Bool)
  | messenger (o : Messenger.Obs)

/-- Every server is started, and nobody has come to the messenger. -/
def init (sites : List (Site C)) : Network C :=
  { peers := sites.map Peer.start, messenger := .empty }

/-- An item of a server's stream. -/
def item (text : String) (intact : Bool) : Except String String :=
  if intact then .ok text else .error "broken"

/-- The events of a server that have one of their own here. -/
def isTraffic : System.Event → Bool
  | .node (.wire _ _) | .node (.sendOne _) => true
  | _ => false

/-- The text of a post, if it gets to the messenger. -/
def posted : System.Obs C → Option String
  | .node (.attempted _ text _) => text
  | _ => none

/-- The post of a server comes in at the messenger, or it does not. -/
def submit (net : Network C) (i : Nat) (p : Peer C) (s : System C) : Option String → Network C
  | some text =>
      let link := { p.link with posting := some net.messenger.handlers.length }
      { peers := net.peers.set i { system := s, link }
        messenger := net.messenger.addHandler (.broadcast text) .start }
  | none => { net with peers := net.peers.set i { p with system := s } }

/-- One step; `checks` is the messenger's build. -/
def step (checks : Bool) : Step (Network C) Event (Obs C) := fun net e =>
  match e with
  | .peer i e =>
      match net.peers[i]? with
      | some p =>
          if isTraffic e || !p.link.admits e then none
          else (p.take net.messenger e).map fun r =>
            ({ net with peers := net.peers.set i { p with system := r.1 } }, r.2.map (.peer i))
      | none => none
  | .subscribe i =>
      match net.peers[i]? with
      | some p =>
          if p.system.server.bootstrap = .joining ∧ p.link.subscribing = none then
            let link := { p.link with subscribing := some net.messenger.handlers.length }
            some ({ peers := net.peers.set i { p with link }
                    messenger := net.messenger.addHandler (.subscribe none) .start }, [])
          else none
      | none => none
  | .send i fate =>
      match net.peers[i]? with
      | some p => (p.take net.messenger (.node (.sendOne fate))).map fun r =>
          (net.submit i p r.1 (r.2.findSome? posted), r.2.map (.peer i))
      | none => none
  | .hear i intact amb =>
      match net.peers[i]? with
      | some p =>
          match p.link.stream with
          | text :: stream =>
              (p.take net.messenger (.node (.wire (item text intact) amb))).map fun r =>
                let link := { p.link with stream }
                ({ net with peers := net.peers.set i { system := r.1, link } },
                  .heard i text intact :: r.2.map (.peer i))
          | [] => none
      | none => none
  | .messenger e =>
      (Messenger.Db.step checks net.messenger e).map fun r =>
        ({ peers := net.peers.map (Peer.follow net.messenger r.2), messenger := r.1 },
          r.2.map .messenger)

/-! ## What a step can do -/

/-- A step is a server's own, a server's towards the messenger, or the messenger's. -/
inductive Steps (checks : Bool) (net : Network C) :
    Event → Network C → List (Obs C) → Prop
  | acted {i e p s o} : net.peers[i]? = some p → isTraffic e = false →
      (e = .server (.join true) → p.link.subscription.isSome = true) →
      p.system.step e = some (s, o) →
      Steps checks net (.peer i e) { net with peers := net.peers.set i { p with system := s } }
        (o.map (.peer i))
  | subscribed {i p} : net.peers[i]? = some p → p.link.subscribing = none →
      Steps checks net (.subscribe i)
        { peers := net.peers.set i
            { p with link := { p.link with subscribing := some net.messenger.handlers.length } }
          messenger := net.messenger.addHandler (.subscribe none) .start } []
  | sent {i fate p s m text up} : net.peers[i]? = some p → p.waits net.messenger = false →
      p.system.step (.node (.sendOne fate)) = some (s, [.node (.attempted m text up)]) →
      Steps checks net (.send i fate) (net.submit i p s text)
        [.peer i (.node (.attempted m text up))]
  | heard {i intact amb p text stream s o} : net.peers[i]? = some p →
      p.link.stream = text :: stream →
      p.system.step (.node (.wire (item text intact) amb)) = some (s, o) →
      Steps checks net (.hear i intact amb)
        { net with peers := net.peers.set i { system := s, link := { p.link with stream } } }
        (.heard i text intact :: o.map (.peer i))
  | relayed {e db o} : Messenger.Db.step checks net.messenger e = some (db, o) →
      Steps checks net (.messenger e)
        { peers := net.peers.map (Peer.follow net.messenger o), messenger := db }
        (o.map .messenger)

theorem take_eq_some {db : Messenger.Db} {p : Peer C} {e : System.Event}
    {r : System C × List (System.Obs C)} (h : p.take db e = some r) :
    p.system.step e = some r ∧ (Peer.needsCoordinator e = true → p.waits db = false) := by
  unfold Peer.take at h
  split at h
  · cases h
  · rename_i hcond
    exact ⟨h, fun hneeds => by simpa [hneeds] using hcond⟩

/-- A send is one attempt. -/
theorem attempted_of_send {s t : System C} {fate : PostFate} {o : List (System.Obs C)}
    (h : s.step (.node (.sendOne fate)) = some (t, o)) :
    ∃ m text up, o = [.node (.attempted m text up)] := by
  cases System.step_cases h with
  | node _ _ hn =>
      cases hn with
      | attempted _ _ _ => exact ⟨_, _, _, rfl⟩
      | ranKG _ _ _ _ he => split at he <;> cases he
      | ranO _ _ _ _ he => split at he <;> cases he
      | ranS _ _ _ _ _ he => split at he <;> cases he

theorem step_cases {checks : Bool} {net t : Network C} {e : Event} {o : List (Obs C)}
    (h : net.step checks e = some (t, o)) : Steps checks net e t o := by
  cases e with
  | peer i e =>
      simp only [step] at h
      split at h
      · split at h
        · cases h
        · rename_i p hp hcond
          obtain ⟨r, hr, h⟩ := Option.map_eq_some_iff.mp h
          cases h
          simp only [Bool.or_eq_true, Bool.not_eq_true', not_or, Bool.not_eq_true,
            Bool.not_eq_false] at hcond
          refine .acted hp hcond.1 (fun heq => ?_) (take_eq_some hr).1
          simpa [heq, Link.admits] using hcond.2
      · cases h
  | subscribe i =>
      simp only [step] at h
      split at h
      · split at h
        · rename_i p hp hcond
          cases h
          exact .subscribed hp hcond.2
        · cases h
      · cases h
  | send i fate =>
      simp only [step] at h
      split at h
      · rename_i p hp
        obtain ⟨⟨s, o'⟩, hr, h⟩ := Option.map_eq_some_iff.mp h
        obtain ⟨hstep, hwaits⟩ := take_eq_some hr
        obtain ⟨m, text, up, rfl⟩ := attempted_of_send hstep
        cases h
        have htext : [System.Obs.node (.attempted m text up)].findSome? (posted (C := C)) =
            text := by
          cases text <;> rfl
        rw [htext]
        exact .sent hp (hwaits rfl) hstep
      · cases h
  | hear i intact amb =>
      simp only [step] at h
      split at h
      · rename_i p hp
        split at h
        · rename_i text stream hstream
          obtain ⟨r, hr, h⟩ := Option.map_eq_some_iff.mp h
          cases h
          exact .heard hp hstream (take_eq_some hr).1
        · cases h
      · cases h
  | messenger e =>
      obtain ⟨r, hr, h⟩ := Option.map_eq_some_iff.mp h
      cases h
      exact .relayed hr

/-! ## The parts of a run -/

/-- What a server has put out. -/
def ofPeer (i : Nat) : Obs C → Option (System.Obs C)
  | .peer j o => if j = i then some o else none
  | _ => none

/-- What the messenger has put out. -/
def ofMessenger : Obs C → Option Messenger.Obs
  | .messenger o => some o
  | _ => none

/-- A text that a server has taken from its stream. -/
def heardText (i : Nat) : Obs C → Option String
  | .heard j text _ => if j = i then some text else none
  | _ => none

/-- The same as an item, which may have broken on its way. -/
def heardItem (i : Nat) : Obs C → Option (Except String String)
  | .heard j text intact => if j = i then some (item text intact) else none
  | _ => none

section
variable {i j : Nat} {o : List (System.Obs C)} {mo : List Messenger.Obs}

@[simp] theorem ofPeer_self : (o.map (Obs.peer i)).filterMap (ofPeer i) = o := by
  simp [List.filterMap_map, Function.comp_def, ofPeer]

theorem ofPeer_ne (h : j ≠ i) : (o.map (Obs.peer j)).filterMap (ofPeer i) = [] := by
  simp [List.filterMap_map, Function.comp_def, ofPeer, h]

@[simp] theorem heardText_peer : (o.map (Obs.peer j)).filterMap (heardText i) = [] := by
  simp [List.filterMap_map, Function.comp_def, heardText]

@[simp] theorem heardItem_peer : (o.map (Obs.peer j)).filterMap (heardItem i) = [] := by
  simp [List.filterMap_map, Function.comp_def, heardItem]

@[simp] theorem ofMessenger_peer : (o.map (Obs.peer j)).filterMap ofMessenger = [] := by
  simp [List.filterMap_map, Function.comp_def, ofMessenger]

@[simp] theorem ofPeer_messenger : (mo.map (Obs.messenger (C := C))).filterMap (ofPeer i) = [] := by
  simp [List.filterMap_map, Function.comp_def, ofPeer]

@[simp] theorem heardText_messenger :
    (mo.map (Obs.messenger (C := C))).filterMap (heardText i) = [] := by
  simp [List.filterMap_map, Function.comp_def, heardText]

@[simp] theorem heardItem_messenger :
    (mo.map (Obs.messenger (C := C))).filterMap (heardItem i) = [] := by
  simp [List.filterMap_map, Function.comp_def, heardItem]

@[simp] theorem ofMessenger_messenger :
    (mo.map (Obs.messenger (C := C))).filterMap ofMessenger = mo := by
  simp [List.filterMap_map, Function.comp_def, ofMessenger]

end

section
variable {checks : Bool} {net t : Network C} {e : Event} {o : List (Obs C)}

/-- **The messenger's part of a run is a run of the messenger.** -/
theorem messenger_of_run {guard : Network C → Event → Prop}
    (guard' : Messenger.Db → Messenger.Event → Prop) {sites : List (Site C)} {os : List (Obs C)}
    (hrequest : ∀ db task, guard' db (.request task))
    (hguard : ∀ net e, guard net (.messenger e) → guard' net.messenger e)
    (hrun : Run (step checks) guard (init sites) os net) :
    Run (Messenger.Db.step checks) guard' .empty (os.filterMap ofMessenger) net.messenger := by
  have hstep {net t : Network C} {e : Event} {o : List (Obs C)} (hg : guard net e)
      (hs : net.step checks e = some (t, o)) :
      Projects (Messenger.Db.step checks) guard' Network.messenger ofMessenger net t o := by
    cases step_cases hs with
    | acted _ _ _ _ => exact .inl ⟨rfl, ofMessenger_peer⟩
    | subscribed _ _ => exact .inr ⟨.request (.subscribe none), hrequest _ _, rfl⟩
    | @sent i fate p s m text up _ _ _ =>
        cases text with
        | none => exact .inl ⟨rfl, rfl⟩
        | some text => exact .inr ⟨.request (.broadcast text), hrequest _ _, rfl⟩
    | heard _ _ _ => exact .inl ⟨rfl, by rw [List.filterMap_cons_none rfl, ofMessenger_peer]⟩
    | relayed hstep => exact .inr ⟨_, hguard _ _ hg, by rw [ofMessenger_messenger]; exact hstep⟩
  exact hrun.project fun _ hg hs => hstep hg hs

/-- Whatever the guard, it is a run. -/
theorem messenger_run {guard : Network C → Event → Prop} {sites : List (Site C)} {os : List (Obs C)}
    (hrun : Run (step checks) guard (init sites) os net) :
    Run (Messenger.Db.step checks) anyStep .empty (os.filterMap ofMessenger) net.messenger :=
  messenger_of_run anyStep (fun _ _ => trivial) (fun _ _ _ => trivial) hrun

end

/-! ## One server of the network -/

/-- What somebody else's step does in the messenger, as a server sees it. -/
inductive Others (net : Network C) (i : Nat) : Network C → List (Obs C) → Prop
  | still {t o} : t.messenger = net.messenger → o.filterMap ofMessenger = [] → Others net i t o
  | subscribed {t} : t.messenger = net.messenger.addHandler (.subscribe none) .start →
      Others net i t []
  | posted {t j m text up} : j ≠ i →
      t.messenger = net.messenger.addHandler (.broadcast text) .start →
      Others net i t [.peer j (.node (.attempted m (some text) up))]

/-- **What a step is to the `i`-th server**: it acts, it subscribes, its post leaves or does
not get away, it takes a text from its stream, the messenger acts, or somebody else does. -/
inductive Part (checks : Bool) (net : Network C) (i : Nat) (p : Peer C) :
    Event → Network C → Peer C → List (Obs C) → Prop
  | acted {t e s o} : t.messenger = net.messenger → isTraffic e = false →
      (e = .server (.join true) → p.link.subscription.isSome = true) →
      p.system.step e = some (s, o) →
      Part checks net i p (.peer i e) t { p with system := s } (o.map (.peer i))
  | subscribed {t} : t.messenger = net.messenger.addHandler (.subscribe none) .start →
      p.link.subscribing = none →
      Part checks net i p (.subscribe i) t
        { p with link := { p.link with subscribing := some net.messenger.handlers.length } } []
  | posted {t fate s m text up} :
      t.messenger = net.messenger.addHandler (.broadcast text) .start →
      p.waits net.messenger = false →
      p.system.step (.node (.sendOne fate)) = some (s, [.node (.attempted m (some text) up)]) →
      Part checks net i p (.send i fate) t
        { system := s
          link := { p.link with posting := some net.messenger.handlers.length } }
        [.peer i (.node (.attempted m (some text) up))]
  | missed {t fate s m up} : t.messenger = net.messenger →
      p.system.step (.node (.sendOne fate)) = some (s, [.node (.attempted m none up)]) →
      Part checks net i p (.send i fate) t { p with system := s }
        [.peer i (.node (.attempted m none up))]
  | heard {t intact amb text stream s o} : t.messenger = net.messenger →
      p.link.stream = text :: stream →
      p.system.step (.node (.wire (item text intact) amb)) = some (s, o) →
      Part checks net i p (.hear i intact amb) t
        { system := s, link := { p.link with stream } } (.heard i text intact :: o.map (.peer i))
  | relayed {t e o} : Messenger.Db.step checks net.messenger e = some (t.messenger, o) →
      Part checks net i p (.messenger e) t (p.follow net.messenger o) (o.map .messenger)
  | elsewhere {e t o} : o.filterMap (ofPeer i) = [] → o.filterMap (heardText i) = [] →
      o.filterMap (heardItem i) = [] → Others net i t o → Part checks net i p e t p o

theorem Steps.part {checks : Bool} {net t : Network C} {e : Event} {o : List (Obs C)} {i : Nat}
    {p : Peer C} (hs : Steps checks net e t o) (hp : net.peers[i]? = some p) :
    ∃ q, t.peers[i]? = some q ∧ Part checks net i p e t q o := by
  have hself (q : Peer C) : (net.peers.set i q)[i]? = some q :=
    List.getElem?_set_self (List.getElem?_eq_some_iff.mp hp).1
  have hother {j : Nat} (hji : j ≠ i) (q : Peer C) : (net.peers.set j q)[i]? = some p :=
    (List.getElem?_set_ne hji).trans hp
  cases hs with
  | @acted j e p' s o' hp' htraffic hjoin hstep =>
      by_cases hji : j = i
      · subst hji
        cases hp.symm.trans hp'
        exact ⟨_, hself _, .acted rfl htraffic hjoin hstep⟩
      · exact ⟨p, hother hji _, .elsewhere (ofPeer_ne hji) heardText_peer heardItem_peer
          (.still rfl ofMessenger_peer)⟩
  | @subscribed j p' hp' hnone =>
      by_cases hji : j = i
      · subst hji
        cases hp.symm.trans hp'
        exact ⟨_, hself _, .subscribed rfl hnone⟩
      · exact ⟨p, hother hji _, .elsewhere rfl rfl rfl (.subscribed rfl)⟩
  | @sent j fate p' s m text up hp' hwaits hstep =>
      by_cases hji : j = i
      · subst hji
        cases hp.symm.trans hp'
        cases text with
        | none => exact ⟨_, hself _, .missed rfl hstep⟩
        | some text => exact ⟨_, hself _, .posted rfl hwaits hstep⟩
      · have hmine : [(Obs.peer j (.node (.attempted m text up)) : Obs C)].filterMap
            (ofPeer i) = [] := ofPeer_ne (o := [.node (.attempted m text up)]) hji
        cases text with
        | none => exact ⟨p, hother hji _, .elsewhere hmine rfl rfl (.still rfl rfl)⟩
        | some text => exact ⟨p, hother hji _, .elsewhere hmine rfl rfl (.posted hji rfl)⟩
  | @heard j intact amb p' text stream s o' hp' hstream hstep =>
      by_cases hji : j = i
      · subst hji
        cases hp.symm.trans hp'
        exact ⟨_, hself _, .heard rfl hstream hstep⟩
      · refine ⟨p, hother hji _, .elsewhere ?_ ?_ ?_ (.still rfl ?_)⟩
        · rw [List.filterMap_cons_none rfl, ofPeer_ne hji]
        · rw [List.filterMap_cons_none (by simp [heardText, hji]), heardText_peer]
        · rw [List.filterMap_cons_none (by simp [heardItem, hji]), heardItem_peer]
        · rw [List.filterMap_cons_none rfl, ofMessenger_peer]
  | @relayed e db o hstep =>
      refine ⟨p.follow net.messenger o, ?_, .relayed hstep⟩
      rw [List.getElem?_map, hp, Option.map_some]

/-- **The rule for one server.** What holds of a server at its start and is kept by every
step, whatever it is to this server, holds of it wherever the run gets. -/
theorem peer_of_run {checks : Bool} {guard : Network C → Event → Prop} {sites : List (Site C)}
    {os : List (Obs C)} {net : Network C} {i : Nat} {site : Site C}
    (hrun : Run (step checks) guard (init sites) os net) (hi : sites[i]? = some site)
    (Inv : List (Obs C) → Network C → Peer C → Prop)
    (hinit : Inv [] (init sites) (.start site))
    (hstep : ∀ {os net p e t q o}, Run (step checks) guard (init sites) os net →
      Run (step checks) guard (init sites) (os ++ o) t → net.peers[i]? = some p →
      t.peers[i]? = some q → Inv os net p → guard net e → Part checks net i p e t q o →
      Inv (os ++ o) t q) :
    ∃ p, net.peers[i]? = some p ∧ Inv os net p := by
  refine hrun.invariant (fun os net => ∃ p, net.peers[i]? = some p ∧ Inv os net p)
    ⟨_, by simp [init, hi], hinit⟩ ?_
  rintro os net e t o hr ⟨p, hp, h⟩ hg hs
  obtain ⟨q, hq, hpart⟩ := (step_cases hs).part hp
  exact ⟨q, hq, hstep hr (hr.next hg hs) hp hq h hg hpart⟩

/-! ## What a server hears -/

/-- An envelope that reached the coordinator. -/
def receivedWire : System.Obs C → Option WireMessage
  | .node (.received _ w) => some w
  | _ => none

variable (C) in
/-- The envelope an item brings a server of this key. -/
def accepted (ownPubKey : String) (item : Except String String) : Option WireMessage :=
  match parseSigned C item with
  | some (.ok w) => if takeNonOwned ownPubKey (.ok w) then some w else none
  | _ => none

section
variable {n t : Node C} {e : MpcServer.Event} {o : List (MpcServer.Obs C)}

/-- What a step of the coordinator's receives: the envelope of its item. -/
def arrivals (n : Node C) : MpcServer.Event → List WireMessage
  | .wire item _ => (n.arriving item).toList
  | _ => []

theorem received_of_node (h : Node.Steps n e t o) :
    (o.map System.Obs.node).filterMap receivedWire = arrivals n e := by
  have hperform (n : Node C) (call : Coordinator.Call C String Unit) :
      ((Node.perform n call).2.map System.Obs.node).filterMap receivedWire = [] := by
    refine List.filterMap_eq_nil_iff.mpr fun x hx => ?_
    obtain ⟨y, hy, rfl⟩ := List.mem_map.mp hx
    obtain ⟨e, -, rfl⟩ := List.mem_map.mp hy
    rfl
  have hfailures {l : List (MpcServer.Obs C)}
      (hl : ∀ y ∈ l, receivedWire (.node y) = none) :
      (l.map System.Obs.node).filterMap receivedWire = [] := by
    refine List.filterMap_eq_nil_iff.mpr fun x hx => ?_
    obtain ⟨y, hy, rfl⟩ := List.mem_map.mp hx
    exact hl y hy
  cases h with
  | skipped harr => simp [arrivals, harr]
  | finished _ => rfl
  | attempted _ _ _ => rfl
  | lost _ => rfl
  | queued _ => rfl
  | @received item amb w _ harr =>
      have hnone := hperform { n with nextOrigin := n.nextOrigin + 1 }
        (Coordinator.handleCoordinatorMessage (.incoming ⟨w, n.nextOrigin⟩) (n.ctx amb))
      simp only [Node.receive, List.map_cons, List.filterMap_cons, receivedWire, hnone, arrivals,
        harr, Option.toList_some]
  | tookMail _ _ =>
      simp only [Node.takeMail, List.map_cons, List.filterMap_cons, receivedWire, hperform,
        arrivals]
  | fired _ => rfl
  | tookRetry _ _ => exact hperform _ _
  | @ranKG _ _ _ _ _ msg _ _ _ he =>
      subst he
      cases msg <;> exact hfailures fun y hy => by rw [Node.eq_of_mem_failures hy]; rfl
  | @ranO _ _ _ _ _ msg _ _ _ he =>
      subst he
      cases msg <;> exact hfailures fun y hy => by rw [Node.eq_of_mem_failures hy]; rfl
  | @ranS _ _ _ _ msg _ _ _ _ he =>
      subst he
      cases msg <;> exact hfailures fun y hy => by rw [Node.eq_of_mem_failuresS hy]; rfl

theorem received_of_system {s s' : System C} {e : System.Event} {o : List (System.Obs C)}
    (h : s.step e = some (s', o)) : o.filterMap receivedWire =
      match e with
      | .node e => arrivals s.node e
      | _ => [] := by
  cases System.step_cases h with
  | server _ =>
      refine List.filterMap_eq_nil_iff.mpr fun x hx => ?_
      obtain ⟨y, -, rfl⟩ := List.mem_map.mp hx
      rfl
  | forward _ _ hn => exact received_of_node hn
  | node _ _ hn => exact received_of_node hn

end

/-- What the server of a site is, after a run of the network. -/
structure Tracks (site : Site C) (i : Nat) (os : List (Obs C)) (p : Peer C) : Prop where
  run : Run System.step anyStep (System.init site.sk site.shares site.results)
    (os.filterMap (ofPeer i)) p.system
  received : (os.filterMap (ofPeer i)).filterMap receivedWire =
    (os.filterMap (heardItem i)).filterMap (accepted C (C.ownKey site.sk))

section
variable {checks : Bool} {guard : Network C → Event → Prop} {sites : List (Site C)}
  {os o : List (Obs C)} {net t : Network C} {e : Event} {i : Nat} {site : Site C} {p q : Peer C}

theorem Tracks.start (site : Site C) (i : Nat) : Tracks site i [] (Peer.start site) where
  run := .start
  received := rfl

theorem Tracks.pkStr (h : Tracks site i os p) :
    p.system.node.coordinator.pkStr = C.ownKey site.sk :=
  (System.continues_of_run h.run).pkStr

/-- A step of the server, which may have heard an item. -/
theorem Tracks.moved (h : Tracks site i os p) {e : System.Event} {s : System C}
    {o' : List (System.Obs C)} (hs : p.system.step e = some (s, o')) (hq : q.system = s)
    (hpeer : o.filterMap (ofPeer i) = o')
    (hheard : o'.filterMap receivedWire =
      (o.filterMap (heardItem i)).filterMap (accepted C (C.ownKey site.sk))) :
    Tracks site i (os ++ o) q where
  run := by
    rw [List.filterMap_append, hpeer, hq]
    exact h.run.next trivial hs
  received := by
    rw [List.filterMap_append, List.filterMap_append, List.filterMap_append, hpeer, h.received,
      hheard, ← List.filterMap_append]

/-- A step in which the server does nothing. -/
theorem Tracks.stood (h : Tracks site i os p) (hq : q.system = p.system)
    (hpeer : o.filterMap (ofPeer i) = []) (hheard : o.filterMap (heardItem i) = []) :
    Tracks site i (os ++ o) q where
  run := by
    rw [List.filterMap_append, hpeer, List.append_nil, hq]
    exact h.run
  received := by
    simp only [List.filterMap_append, hpeer, hheard, List.append_nil]
    exact h.received

theorem Tracks.step (h : Tracks site i os p) (hpart : Part checks net i p e t q o) :
    Tracks site i (os ++ o) q := by
  cases hpart with
  | @acted t e s o' _ htraffic _ hstep =>
      refine h.moved hstep rfl ofPeer_self ?_
      rw [heardItem_peer, received_of_system hstep]
      -- items come down the stream only
      cases e with
      | node e => cases e <;> first | rfl | cases htraffic
      | _ => rfl
  | subscribed _ _ => exact h.stood rfl rfl rfl
  | posted _ _ hstep =>
      exact h.moved hstep rfl (by simp [ofPeer]) (received_of_system hstep)
  | missed _ hstep => exact h.moved hstep rfl (by simp [ofPeer]) (received_of_system hstep)
  | @heard t intact amb text stream s o' _ _ hstep =>
      refine h.moved hstep rfl ?_ ?_
      · rw [List.filterMap_cons_none rfl, ofPeer_self]
      · rw [List.filterMap_cons_some (b := item text intact) (by simp [heardItem]),
          heardItem_peer, received_of_system hstep]
        have harriving : p.system.node.arriving (item text intact) =
            accepted C (C.ownKey site.sk) (item text intact) := by
          unfold Node.arriving
          rw [h.pkStr]
          rfl
        show (p.system.node.arriving (item text intact)).toList = _
        rw [harriving, List.filterMap_cons]
        cases accepted C (C.ownKey site.sk) (item text intact) <;> rfl
  | relayed _ => exact h.stood rfl ofPeer_messenger heardItem_messenger
  | elsewhere hpeer _ hitem _ => exact h.stood rfl hpeer hitem

/-- **A network's run is a run of each of its servers**, which receives what it has heard. -/
theorem tracks_of_run (hrun : Run (step checks) guard (init sites) os net)
    (hi : sites[i]? = some site) : ∃ p, net.peers[i]? = some p ∧ Tracks site i os p :=
  peer_of_run hrun hi (fun os _ p => Tracks site i os p) (.start site i)
    fun _ _ _ _ h _ hpart => h.step hpart

end

/-! ## Down the stream -/

/-- A text that the `k`-th subscription has returned. -/
def returnedText (k : Nat) (o : Messenger.Obs) : Option String :=
  (Messenger.returnedBy k o).map Prod.snd

theorem filterMap_returnedText (k : Nat) (os : List Messenger.Obs) :
    os.filterMap (returnedText k) = (os.filterMap (Messenger.returnedBy k)).map Prod.snd := by
  rw [List.map_filterMap]
  rfl

/-- A server's link is to its own subscription, which starts at the first text of its room;
and what that has returned the server has read, up to what is still in the stream. -/
structure Linked (i : Nat) (os : List (Obs C)) (db : Messenger.Db) (link : Link) : Prop where
  order : link.subscribing = none → link.subscription = none
  subscribing : ∀ h, link.subscribing = some h → ∃ progress,
    db.handlers[h]? = some ⟨.subscribe none, progress⟩ ∧
      (link.subscription.isSome = true → progress = .returned)
  unread : link.subscription = none →
    link.stream = [] ∧ os.filterMap (heardText i) = []
  returned : ∀ k, link.subscription = some k → k < db.subscriptions.length ∧
    (os.filterMap ofMessenger).filterMap (returnedText k) =
      os.filterMap (heardText i) ++ link.stream

theorem Linked.init (i : Nat) (db : Messenger.Db) : Linked (C := C) i [] db .init where
  order _ := rfl
  subscribing _ h := by cases h
  unread _ := ⟨rfl, rfl⟩
  returned _ h := by cases h

section
variable {checks : Bool} {i : Nat} {os o : List (Obs C)} {db t : Messenger.Db} {link : Link}

/-- Nothing comes down the stream and nothing is read, whatever the handlers do. -/
theorem Linked.still (h : Linked i os db link) {posting : Option Nat}
    (hget : ∀ {h : Nat} {task : Messenger.Task} {p : Messenger.Progress},
      db.handlers[h]? = some ⟨task, p⟩ →
      ∃ p', t.handlers[h]? = some ⟨task, p'⟩ ∧ (p = .returned → p' = .returned))
    (hlength : db.subscriptions.length ≤ t.subscriptions.length)
    (hheard : o.filterMap (heardText i) = [])
    (hreturned : ∀ k, link.subscription = some k →
      (o.filterMap ofMessenger).filterMap (returnedText k) = []) :
    Linked i (os ++ o) t { link with posting } where
  order := h.order
  subscribing h' hh := by
    obtain ⟨p, hp, hdone⟩ := h.subscribing h' hh
    obtain ⟨p', hp', hdone'⟩ := hget hp
    exact ⟨p', hp', fun hsome => hdone' (hdone hsome)⟩
  unread hnone := by
    rw [List.filterMap_append, hheard, List.append_nil]
    exact h.unread hnone
  returned k hk := by
    obtain ⟨hlt, htexts⟩ := h.returned k hk
    refine ⟨Nat.lt_of_lt_of_le hlt hlength, ?_⟩
    rw [List.filterMap_append, List.filterMap_append, List.filterMap_append, hheard,
      hreturned k hk, List.append_nil, List.append_nil]
    exact htexts

theorem get_addHandler {h : Nat} {task : Messenger.Task} {p : Messenger.Progress}
    (hget : db.handlers[h]? = some ⟨task, p⟩) (task' : Messenger.Task) :
    ∃ p', (db.addHandler task' .start).handlers[h]? = some ⟨task, p'⟩ ∧
      (p = .returned → p' = .returned) :=
  (Messenger.Db.Handles.came task' rfl).get hget

/-- A request comes in at the messenger, from whomever. -/
theorem Linked.requested (h : Linked i os db link) {posting : Option Nat} (task : Messenger.Task)
    (ht : t = db.addHandler task .start) (hheard : o.filterMap (heardText i) = [])
    (hmessenger : o.filterMap ofMessenger = []) :
    Linked i (os ++ o) t { link with posting } := by
  subst ht
  exact h.still (get_addHandler · task) (Nat.le_refl _) hheard fun _ _ => by rw [hmessenger]; rfl

/-- The messenger takes a step. -/
theorem Linked.relayed (h : Linked i os db link)
    {guard : Messenger.Db → Messenger.Event → Prop}
    (hrun : Run (Messenger.Db.step checks) guard .empty (os.filterMap ofMessenger) db)
    {e : Messenger.Event} {mo : List Messenger.Obs}
    (hstep : Messenger.Db.step checks db e = some (t, mo)) :
    Linked i (os ++ mo.map .messenger) t (mo.foldl (Link.follow db) link) := by
  have hs := Messenger.Db.step_cases hstep
  have hstill (hreturned : ∀ k, link.subscription = some k →
      mo.filterMap (returnedText k) = []) : Linked i (os ++ mo.map .messenger) t link :=
    h.still hs.handles.get (Messenger.Db.subscriptions_length_le hs) heardText_messenger
      fun k hk => by rw [ofMessenger_messenger]; exact hreturned k hk
  cases hs with
  | @returned k sub text nextEvent hget _ _ _ _ =>
      simp only [List.foldl_cons, List.foldl_nil, Link.follow]
      split
      · rename_i hk
        refine ⟨h.order, h.subscribing, fun hnone => (by cases hk.symm.trans hnone), ?_⟩
        intro k' hk'
        obtain rfl : k = k' := Option.some.inj (hk.symm.trans hk')
        obtain ⟨hlt, htexts⟩ := h.returned k hk
        refine ⟨by simpa [Messenger.Db.setSubscription] using hlt, ?_⟩
        simp only [List.filterMap_append, htexts, ofMessenger_messenger, heardText_messenger]
        simp [returnedText, Messenger.returnedBy]
      · rename_i hk
        refine hstill fun k' hk' => ?_
        have hne : k ≠ k' := fun heq => hk (heq ▸ hk')
        simp [returnedText, Messenger.returnedBy, hne]
  | @subscribed h' last room nextEvent hget hnext =>
      simp only [List.foldl_cons, List.foldl_nil, Link.follow]
      split
      · rename_i hh
        -- the handler is still on its way, so there was no subscription
        obtain ⟨progress, hprogress, hdone⟩ := h.subscribing h' hh
        cases hget.symm.trans hprogress
        have hnone : link.subscription = none := by
          cases hsub : link.subscription with
          | none => rfl
          | some _ => cases hdone (by rw [hsub]; rfl)
        obtain ⟨hstream, hheard⟩ := h.unread hnone
        refine ⟨fun hsub => (by cases hsub.symm.trans hh), fun h'' hh'' => ?_,
          fun hsub => (by cases hsub), fun k hk => ?_⟩
        · obtain rfl : h' = h'' := Option.some.inj (hh.symm.trans hh'')
          refine ⟨.returned, ?_, fun _ => rfl⟩
          exact List.getElem?_set_self (List.getElem?_eq_some_iff.mp hget).1
        · obtain rfl : db.subscriptions.length = k := Option.some.inj hk
          refine ⟨by simp, ?_⟩
          have hbefore : (os.filterMap ofMessenger).filterMap
              (returnedText db.subscriptions.length) = [] := by
            rw [filterMap_returnedText, Messenger.Db.unreturned hrun]
            rfl
          simp only [List.filterMap_append, hbefore, hheard, ofMessenger_messenger,
            heardText_messenger, List.nil_append]
          simp [returnedText, Messenger.returnedBy, hstream]
      · exact hstill fun _ _ => rfl
  | _ => exact hstill fun _ _ => rfl

end

section
variable {checks : Bool} {guard : Network C → Event → Prop} {sites : List (Site C)}
  {os o : List (Obs C)} {net t : Network C} {e : Event} {i : Nat} {site : Site C} {p q : Peer C}

theorem Linked.step (h : Linked i os net.messenger p.link)
    {guard : Messenger.Db → Messenger.Event → Prop}
    (hrun : Run (Messenger.Db.step checks) guard .empty (os.filterMap ofMessenger) net.messenger)
    (hpart : Part checks net i p e t q o) : Linked i (os ++ o) t.messenger q.link := by
  cases hpart with
  | acted ht _ _ _ =>
      rw [ht]
      exact h.still (fun hget => ⟨_, hget, id⟩) (Nat.le_refl _) heardText_peer fun _ _ => by
        rw [ofMessenger_peer]
        rfl
  | subscribed ht hnone =>
      have hsub := h.order hnone
      rw [List.append_nil, ht]
      refine ⟨fun hnone => (by cases hnone), fun h' hh => ?_, h.unread, fun k hk => ?_⟩
      · obtain rfl := Option.some.inj hh
        exact ⟨.start, Messenger.Db.addHandler_get _ _ _, fun hsome => by
          rw [hsub] at hsome; cases hsome⟩
      · cases hsub.symm.trans hk
  | posted ht _ _ => exact h.requested _ ht rfl rfl
  | missed ht _ =>
      rw [ht]
      exact h.still (fun hget => ⟨_, hget, id⟩) (Nat.le_refl _) rfl fun _ _ => rfl
  | @heard t intact amb text stream s o' ht hstream _ =>
      rw [ht]
      have hheard : (Obs.heard i text intact :: o'.map (Obs.peer i)).filterMap (heardText i) =
          [text] := by
        rw [List.filterMap_cons_some (b := text) (by simp [heardText]), heardText_peer]
      refine ⟨h.order, h.subscribing, fun hnone => ?_, fun k hk => ?_⟩
      · rw [(h.unread hnone).1] at hstream
        cases hstream
      · obtain ⟨hlt, htexts⟩ := h.returned k hk
        refine ⟨hlt, ?_⟩
        rw [List.filterMap_append, List.filterMap_append, List.filterMap_append, htexts, hheard,
          hstream, List.filterMap_cons_none (f := ofMessenger) rfl, ofMessenger_peer]
        simp
  | relayed hstep => exact h.relayed hrun hstep
  | elsewhere _ hheard _ hothers =>
      cases hothers with
      | still ht ho =>
          rw [ht]
          exact h.still (fun hget => ⟨_, hget, id⟩) (Nat.le_refl _) hheard fun _ _ => by
            rw [ho]
            rfl
      | subscribed ht => exact h.requested _ ht rfl rfl
      | posted _ ht => exact h.requested _ ht hheard rfl

/-- **A server hears what its subscription returns**, and the messenger goes its own way. -/
theorem linked_of_run (hrun : Run (step checks) guard (init sites) os net)
    (hi : sites[i]? = some site) :
    ∃ p, net.peers[i]? = some p ∧ Linked i os net.messenger p.link := by
  refine peer_of_run hrun hi (fun os net p => Linked i os net.messenger p.link) (.init i _) ?_
  intro os net p e t q o hr _ _ _ h _ hpart
  exact h.step (messenger_run hr) hpart

end

end Network

end MpcServer

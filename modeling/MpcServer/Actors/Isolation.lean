import MpcServer.Lib.Registry
import MpcServer.Actors.Pool
import MpcServer.Actors.Mailbox
import MpcServer.Runners

/-!
# Sessions do not mix

The coordinator serves all sessions of a node from one mailbox. What a runner
is handed is addressed to its own room, and what becomes of it is decided by
its own start and its own messages: the runners of each kind are a pool, and
what is seen of them in a run of the node is a run of that pool.
-/

namespace MpcServer

open Rust Rust.Method Machine

variable {C : Crates}

namespace Node

/-! ## Registrations lead to the room's runner -/

/-- The maps of the coordinator lead to runners of the room they are asked for. -/
structure Led (n : Node C) : Prop where
  keygen : Registry.Points n.coordinator.keygenRunners n.roomsKG
  offline : Registry.Points n.coordinator.offlineStateRunners n.roomsO
  signers : Registry.Points n.coordinator.signers n.roomsS

section
variable {n t : Node C} {e : Event} {o os : List (Obs C)}

theorem Led.init (sk : C.SecretKey) (db : Tree C) : Led (init sk db) :=
  ⟨.empty _, .empty _, .empty _⟩

theorem Led.step (h : Led n) (hs : Steps n e t o) : Led t :=
  have hturns := hs.reregisters
  ⟨h.keygen.turn hturns.keygen, h.offline.turn hturns.offline, h.signers.turn hturns.signers⟩

theorem led_of_run {guard : Node C → Event → Prop} {sk : C.SecretKey} {db : Tree C}
    (hrun : Run step guard (init sk db) os n) : Led n :=
  hrun.invariant (fun _ n => Led n) (.init sk db) fun _ h _ hs => h.step (step_cases hs)

end

/-! ## Calls noted on the side -/

variable (C) in
/-- What the trace does not say: the requests that came in, and the calls the
runners ran, with what they sent. -/
inductive Note
  | asked (req : Request)
  | ranKG (a : Addr) (now : Nat) (msg : Option (IncomingKG C))
      (sends : List (PlayerSend KeygenRequest C.KeygenProtocolMessage StageError C.LocalKey))
  | ranO (a : Addr) (now : Nat) (msg : Option (IncomingO C))
      (sends : List (PlayerSend EnrichedSignRequest C.OfflineProtocolMessage StageError
        C.CompletedOfflineStage))
  | ranS (a : Addr) (msg : Option (IncomingS C)) (sends : List (SignerSend C))

/-- The note of a call of a keygen player. -/
def noteKG (a : Addr) (now : Nat) (p : PlayerKG C) (msg : Option (IncomingKG C)) : Note C :=
  .ranKG a now msg (callKG p now msg).2.2

/-- The note of a call of an offline player. -/
def noteO (a : Addr) (now : Nat) (p : PlayerO C) (msg : Option (IncomingO C)) : Note C :=
  .ranO a now msg (callO p now msg).2.2

/-- The note of a call of a signer. -/
def noteS (a : Addr) (s : Signer C) (msg : Option (IncomingS C)) : Note C :=
  .ranS a msg (callS s msg).2.2

/-- The notes of a step. -/
def notesOf (n : Node C) : Event → List (Note C)
  | .request req => if n.alive then [.asked req] else []
  | .tickKG a now => (n.playersKG[a]?).toList.map fun x => noteKG a now x.state none
  | .tickO a now => (n.playersO[a]?).toList.map fun x => noteO a now x.state none
  | .playKG a now => (n.playersKG[a]?).toList.map fun x => noteKG a now x.state x.mailbox.head?
  | .playO a now => (n.playersO[a]?).toList.map fun x => noteO a now x.state x.mailbox.head?
  | .startS a => (n.signers[a]?).toList.map fun x => noteS a x.state none
  | .playS a => (n.signers[a]?).toList.map fun x => noteS a x.state x.mailbox.head?
  | .wire .. | .finished | .sendOne _ | .mail _ | .fire _ | .retry _ => []

section
variable {n : Node C} {e : Event} {a now : Nat}

theorem notesOf_ranKG {x : Actor (PlayerKG C) (IncomingKG C)} {rest : List (IncomingKG C)}
    {msg : Option (IncomingKG C)} (hget : n.playersKG[a]? = some x)
    (hbox : x.mailbox = msg.toList ++ rest)
    (he : e = if msg.isSome then .playKG a now else .tickKG a now) :
    n.notesOf e = [noteKG a now x.state msg] := by
  subst he
  cases msg <;> simp [notesOf, hget, hbox]

theorem notesOf_ranO {x : Actor (PlayerO C) (IncomingO C)} {rest : List (IncomingO C)}
    {msg : Option (IncomingO C)} (hget : n.playersO[a]? = some x)
    (hbox : x.mailbox = msg.toList ++ rest)
    (he : e = if msg.isSome then .playO a now else .tickO a now) :
    n.notesOf e = [noteO a now x.state msg] := by
  subst he
  cases msg <;> simp [notesOf, hget, hbox]

theorem notesOf_ranS {x : Actor (Signer C) (IncomingS C)} {rest : List (IncomingS C)}
    {msg : Option (IncomingS C)} (hget : n.signers[a]? = some x)
    (hbox : x.mailbox = msg.toList ++ rest)
    (he : e = if msg.isSome then .playS a else .startS a) :
    n.notesOf e = [noteS a x.state msg] := by
  subst he
  cases msg <;> simp [notesOf, hget, hbox]

end

/-! ## The mail is a queue -/

/-- The mail that a note tells of. -/
def mailOf : Note C → List (Mail C)
  | .asked req => [.request req]
  | .ranKG a _ _ sends => sends.filterMap (mailKG a)
  | .ranO a _ _ sends => sends.filterMap (mailO a)
  | .ranS a _ sends => sends.filterMap (mailS a)

theorem Steps.queue {n t : Node C} {e : Event} {o : List (Obs C)} (h : Steps n e t o) :
    n.mailbox ++ (n.notesOf e).flatMap mailOf = o.filterMap taken ++ t.mailbox := by
  have hstill : n.notesOf e = [] → o.filterMap taken = [] → t.mailbox = n.mailbox →
      n.mailbox ++ (n.notesOf e).flatMap mailOf = o.filterMap taken ++ t.mailbox := by
    intro he ho ht
    rw [he, ho, ht, List.flatMap_nil, List.append_nil, List.nil_append]
  cases h with
  | skipped _ => exact hstill rfl rfl rfl
  | lost hdown => exact hstill (by simp [notesOf, hdown]) rfl rfl
  | finished _ => exact hstill rfl rfl rfl
  | attempted _ _ _ => exact hstill rfl rfl rfl
  | queued hup => simp [notesOf, hup, mailOf]
  | received _ _ =>
      refine hstill rfl ?_ (by simp [receive])
      rw [receive, List.filterMap_cons_none rfl]
      exact taken_perform _ _
  | @tookMail _ m rest _ hbox =>
      -- the handled mail is noted first, and it is the one taken off
      have hhead : taken (.handled m) = some m := rfl
      rw [takeMail, List.filterMap_cons_some hhead, taken_perform, hbox]
      simp [notesOf]
  | fired _ => exact hstill rfl rfl rfl
  | tookRetry _ _ => exact hstill rfl (taken_perform _ _) (by simp [takeRetry])
  | ranKG msg hget _ hbox he =>
      rw [notesOf_ranKG hget hbox he, afterKG, taken_failures rfl]
      simp [noteKG, mailOf]
  | ranO msg hget _ hbox he =>
      rw [notesOf_ranO hget hbox he, afterO, taken_failures rfl]
      simp [noteO, mailOf]
  | ranS msg hget _ _ hbox he =>
      rw [notesOf_ranS hget hbox he, afterS, taken_failuresS rfl]
      simp [noteS, mailOf]

/-- **The mail keeps its order.** What came in as a request or was sent by a
runner is what the coordinator has taken up and what is still waiting, in the
order it was sent, each once. -/
theorem mail_of_run {guard : Node C → Event → Prop} {sk : C.SecretKey} {db : Tree C}
    {os : List (Obs C ⊕ Note C)} {n : Node C}
    (hrun : Run (noting step notesOf) guard (init sk db) os n) :
    (notes os).flatMap mailOf = (seen os).filterMap taken ++ n.mailbox := by
  refine hrun.invariant
    (fun os n => (notes os).flatMap mailOf = (seen os).filterMap taken ++ n.mailbox) rfl ?_
  intro os n e t o _ ih _ hs
  obtain ⟨hstep, hnotes⟩ := noting_eq_some hs
  rw [notes_append, seen_append, List.flatMap_append, List.filterMap_append, ih, hnotes,
    List.append_assoc, List.append_assoc, (step_cases hstep).queue]

/-! ## The runners of a kind are a pool -/

variable (C) in
/-- A keygen player is up at once. -/
def roleKG : Role (PlayerKG C) (IncomingKG C) Nat
    (PlayerSend KeygenRequest C.KeygenProtocolMessage StageError C.LocalKey) StageError :=
  { call := callKG, ready := true }

variable (C) in
/-- So is an offline player. -/
def roleO : Role (PlayerO C) (IncomingO C) Nat
    (PlayerSend EnrichedSignRequest C.OfflineProtocolMessage StageError
      C.CompletedOfflineStage) StageError :=
  { call := callO, ready := true }

variable (C) in
/-- A signer is not up before its first call. -/
def roleS : Role (Signer C) (IncomingS C) Unit (SignerSend C) String :=
  { call := fun s _ msg => callS s msg, ready := false }

/-- What is seen of the keygen players. -/
abbrev SeenKG (C : Crates) := Role.Seen (PlayerKG C) (IncomingKG C) Nat
  (PlayerSend KeygenRequest C.KeygenProtocolMessage StageError C.LocalKey)

/-- What is seen of the offline players. -/
abbrev SeenO (C : Crates) := Role.Seen (PlayerO C) (IncomingO C) Nat
  (PlayerSend EnrichedSignRequest C.OfflineProtocolMessage StageError C.CompletedOfflineStage)

/-- What is seen of the signers. -/
abbrev SeenS (C : Crates) := Role.Seen (Signer C) (IncomingS C) Unit (SignerSend C)

/-- What an effect does to the keygen players. -/
def movedKG : Effect C → Option (SeenKG C)
  | .startKG a p => some (.started a p)
  | .deliverKG a m => some (.posted a m)
  | _ => none

/-- An offline player is started, or mail is posted to it. -/
def movedO : Effect C → Option (SeenO C)
  | .startO a p => some (.started a p)
  | .deliverO a m => some (.posted a m)
  | _ => none

/-- A signer is started, or mail is posted to it. -/
def movedS : Effect C → Option (SeenS C)
  | .startS a s => some (.started a s)
  | .deliverS a m => some (.posted a m)
  | _ => none

/-- The call of a keygen player that a note tells of. -/
def calledKG : Note C → Option (SeenKG C)
  | .ranKG a now msg sends => some (.called a now msg sends)
  | _ => none

/-- An offline player is called. -/
def calledO : Note C → Option (SeenO C)
  | .ranO a now msg sends => some (.called a now msg sends)
  | _ => none

/-- A signer is called. -/
def calledS : Note C → Option (SeenS C)
  | .ranS a msg sends => some (.called a () msg sends)
  | _ => none

/-- What the trace and its notes show of the runners of a kind. -/
def seenOf {σ μ κ ω : Type} (moved : Effect C → Option (Role.Seen σ μ κ ω))
    (called : Note C → Option (Role.Seen σ μ κ ω)) : Obs C ⊕ Note C → Option (Role.Seen σ μ κ ω)
  | .inl (.effect e) => moved e
  | .inl _ => none
  | .inr note => called note

/-- The history of the keygen players in that of the node. -/
def seenKG : Obs C ⊕ Note C → Option (SeenKG C) := seenOf movedKG calledKG

/-- That of the offline players. -/
def seenO : Obs C ⊕ Note C → Option (SeenO C) := seenOf movedO calledO

/-- That of the signers. -/
def seenS : Obs C ⊕ Note C → Option (SeenS C) := seenOf movedS calledS

/-! ### What a handler of the coordinator does to the runners of a kind -/

/-- Nothing, one delivery to the runner that is registered for the room, or the start of
one runner. -/
inductive Moved {σ β κ ω : Type} (runners : String → Option Addr) (count : Nat) :
    List (Role.Seen σ (IncomingMessage β) κ ω) → Prop
  | nothing : Moved runners count []
  | posted {a m} : runners m.room = some a → Moved runners count [.posted a m]
  | started (s) : Moved runners count [.started count s]

/-- What a handler's effects do to the runners of each kind. -/
structure MovesOne (n : Node C) (es : List (Effect C)) : Prop where
  keygen : Moved n.coordinator.keygenRunners n.playersKG.length (es.filterMap movedKG)
  offline : Moved n.coordinator.offlineStateRunners n.playersO.length (es.filterMap movedO)
  signers : Moved n.coordinator.signers n.signers.length (es.filterMap movedS)

section
variable {n : Node C} {es : List (Effect C)}

theorem MovesOne.nothing (hKG : es.filterMap movedKG = []) (hO : es.filterMap movedO = [])
    (hS : es.filterMap movedS = []) : MovesOne n es :=
  ⟨hKG ▸ .nothing, hO ▸ .nothing, hS ▸ .nothing⟩

/-- A message is delivered to the runner of its room, or not at all. -/
theorem delivery_cases {μ : Type} (runners : String → Option Addr) (codec : Serde (Msg μ) String)
    (deliver : Addr → IncomingMessage (Msg μ) → Effect C) (message : Arrival) :
    Coordinator.delivery runners codec deliver message = none ∨
      ∃ a m, runners m.room = some a ∧
        Coordinator.delivery runners codec deliver message = some (deliver a m) := by
  unfold Coordinator.delivery
  cases hr : runners message.room with
  | none => exact .inl rfl
  | some a =>
      cases codec.read message.payload with
      | none => exact .inl rfl
      | some msg => exact .inr ⟨a, ⟨message.room, message, msg⟩, hr, rfl⟩

theorem movesOne_effects (n : Node C) (f : Fate) : MovesOne n (n.coordinator.effects f) := by
  cases f with
  | gone => exact .nothing rfl rfl rfl
  | panicked => exact .nothing rfl rfl rfl
  | retried m =>
      simp only [Coordinator.effects, Coordinator.retryEffects]
      split <;> exact .nothing rfl rfl rfl
  | delivered message =>
      simp only [Coordinator.effects, Coordinator.deliveries]
      rcases delivery_cases n.coordinator.offlineStateRunners C.msgO .deliverO message with
        hO | ⟨a, m, hleadsO, hO⟩ <;>
      rcases delivery_cases n.coordinator.signers C.msgS .deliverS message with
        hS | ⟨b, m', hleadsS, hS⟩ <;>
      rcases delivery_cases n.coordinator.keygenRunners C.msgKG .deliverKG message with
        hKG | ⟨d, m'', hleadsKG, hKG⟩ <;>
      rw [hO, hS, hKG] <;>
      refine ⟨?_, ?_, ?_⟩
      all_goals
        first
          | exact .nothing
          | exact .posted ‹_›

theorem movesOne_of_handled {amb : Ambient} {c' : Coordinator C} {m : Mail C}
    {r : Except (Stop String) Unit} (h : Handled n.coordinator (n.ctx amb) m r c' es) :
    MovesOne n es := by
  cases h with
  | keygenRequest hk =>
      cases hk with
      | refused _ => exact .nothing rfl rfl rfl
      | began _ _ => exact ⟨.started _, .nothing, .nothing⟩
  | signRequest hk =>
      cases hk with
      | began _ _ _ _ => exact ⟨.nothing, .started _, .nothing⟩
      | _ => exact .nothing rfl rfl rfl
  | outgoing hes =>
      refine .nothing ?_ ?_ ?_ <;>
      refine List.filterMap_eq_nil_iff.mpr fun x hx => ?_ <;>
      obtain ⟨m, rfl⟩ := hes x hx <;>
      rfl
  | outputKG hk => cases hk <;> exact .nothing rfl rfl rfl
  | outputO hk =>
      cases hk with
      | signing _ => exact ⟨.nothing, .nothing, .started _⟩
      | badHash _ => exact .nothing rfl rfl rfl
  | outputS => exact .nothing rfl rfl rfl

end

/-! ## A step of the node is a step of each pool -/

section
variable {σ β κ ω ε : Type} {role : Role σ (IncomingMessage β) κ ω ε}
  {runners : String → Option Addr} {rooms : List String}
  {l l' : List (Actor σ (IncomingMessage β))}
  {moves : List (Role.Seen σ (IncomingMessage β) κ ω)}

variable (role) in
/-- What a step does to the runners of a kind: what a handler of the coordinator does, or
one runner's call. -/
inductive Part (runners : String → Option Addr) (l l' : List (Actor σ (IncomingMessage β)))
    (moves : List (Role.Seen σ (IncomingMessage β) κ ω)) : Prop
  | moved : Moved runners l.length moves → l' = moves.foldl role.apply l →
      Part runners l l' moves
  | ran {a x rest} (c : κ) (msg : Option (IncomingMessage β)) : l[a]? = some x →
      x.alive = true → x.mailbox = msg.toList ++ rest →
      (l', moves) = role.ran l a x.state c msg rest → Part runners l l' moves

theorem Part.still (hl : l' = l) (hmoves : moves = []) : Part role runners l l' moves := by
  subst hmoves
  exact .moved .nothing hl

/-- The effects of a handler are carried out on the runners of a kind. -/
theorem Part.of_effects {moved : Effect C → Option (Role.Seen σ (IncomingMessage β) κ ω)}
    {f : List (Actor σ (IncomingMessage β)) → Effect C → List (Actor σ (IncomingMessage β))}
    (hf : ∀ l e, f l e = (moved e).elim l (role.apply l)) {es : List (Effect C)}
    (hmoved : Moved runners l.length (es.filterMap moved)) (hl : l' = es.foldl f l) :
    Part role runners l l' (es.filterMap moved) := by
  refine .moved hmoved (hl.trans ?_)
  rw [List.foldl_filterMap]
  congr
  funext l e
  rw [hf]
  cases moved e <;> rfl

/-- **A step of the node is a move of the pool**, or none. -/
theorem Part.projects {proj : Node C → List (Actor σ (IncomingMessage β))}
    {view : Obs C ⊕ Note C → Option (Role.Seen σ (IncomingMessage β) κ ω)} {n t : Node C}
    {os : List (Obs C ⊕ Note C)}
    (h : Part role runners (proj n) (proj t) (os.filterMap view))
    (hled : Registry.Points runners rooms) (hlength : rooms.length = (proj n).length) :
    Projects role.step anyStep proj view n t os := by
  unfold Projects
  cases h with
  | moved hmoved ht =>
      rw [ht]
      cases hmoves : os.filterMap view with
      | nil => exact .inl ⟨rfl, rfl⟩
      | cons x xs =>
          rw [hmoves] at hmoved
          cases hmoved with
          | posted hleads =>
              have ha := (List.getElem?_eq_some_iff.mp (hled _ _ hleads)).1
              obtain ⟨e, he⟩ := role.step_posted (hlength ▸ ha) _
              exact .inr ⟨e, trivial, he⟩
          | started s =>
              obtain ⟨e, he⟩ := role.step_started (proj n) s
              exact .inr ⟨e, trivial, he⟩
  | ran c msg hget hup hbox hran =>
      obtain ⟨e, he⟩ := role.step_called c msg hget hup hbox
      exact .inr ⟨e, trivial, he.trans (congrArg some hran.symm)⟩

end

/-- What a step does to the runners of each kind. -/
structure Parts (n t : Node C) (os : List (Obs C ⊕ Note C)) : Prop where
  keygen : Part (roleKG C) n.coordinator.keygenRunners n.playersKG t.playersKG
    (os.filterMap seenKG)
  offline : Part (roleO C) n.coordinator.offlineStateRunners n.playersO t.playersO
    (os.filterMap seenO)
  signers : Part (roleS C) n.coordinator.signers n.signers t.signers (os.filterMap seenS)

section
variable {n t : Node C} {e : Event} {o : List (Obs C)} {os : List (Obs C ⊕ Note C)}

theorem Parts.still (hKG : t.playersKG = n.playersKG) (hO : t.playersO = n.playersO)
    (hS : t.signers = n.signers) (hos : os.filterMap seenKG = [] ∧ os.filterMap seenO = [] ∧
      os.filterMap seenS = []) : Parts n t os :=
  ⟨.still hKG hos.1, .still hO hos.2.1, .still hS hos.2.2⟩

theorem filterMap_effects {α : Type} (f : Obs C ⊕ Note C → Option α) (es : List (Effect C)) :
    ((es.map Obs.effect).map Sum.inl).filterMap f = es.filterMap fun e => f (.inl (.effect e)) := by
  rw [List.map_map, List.filterMap_map]
  rfl

theorem filterMap_failures {α I β ε ο : Type} {f : Obs C ⊕ Note C → Option α} {x : Obs C}
    (hx : f (.inl x) = none) (sends : List (PlayerSend I β ε ο)) :
    ((sends.filterMap (failureOf x)).map Sum.inl).filterMap f = [] := by
  rw [List.filterMap_map]
  refine List.filterMap_eq_nil_iff.mpr fun y hy => ?_
  obtain rfl := eq_of_mem_failures hy
  exact hx

theorem filterMap_failuresS {α : Type} {f : Obs C ⊕ Note C → Option α} {x : Obs C}
    (hx : f (.inl x) = none) (sends : List (SignerSend C)) :
    ((sends.filterMap (failureOfS x)).map Sum.inl).filterMap f = [] := by
  rw [List.filterMap_map]
  refine List.filterMap_eq_nil_iff.mpr fun y hy => ?_
  obtain rfl := eq_of_mem_failuresS hy
  exact hx

/-- The effects `es` are carried out on a node with the runners of `n`. -/
theorem Parts.of_effects {m : Node C} {es : List (Effect C)} (hes : MovesOne n es)
    (ht : t = es.foldl applyEffect m) (hKG : m.playersKG = n.playersKG)
    (hO : m.playersO = n.playersO) (hS : m.signers = n.signers)
    (hos : ∀ {α : Type} (f : Obs C ⊕ Note C → Option α), (∀ x, (∀ e, x ≠ .effect e) →
      f (.inl x) = none) → os.filterMap f = es.filterMap fun e => f (.inl (.effect e))) :
    Parts n t os := by
  have hsilent {σ μ κ ω : Type} {moved : Effect C → Option (Role.Seen σ μ κ ω)}
      {called : Note C → Option (Role.Seen σ μ κ ω)} (x : Obs C) (hx : ∀ e, x ≠ .effect e) :
      seenOf moved called (.inl x) = none := by
    cases x with
    | effect e => exact absurd rfl (hx e)
    | _ => rfl
  refine ⟨?_, ?_, ?_⟩
  · rw [hos seenKG hsilent]
    refine .of_effects (f := applyKG) (fun l e => by cases e <;> rfl) hes.keygen ?_
    rw [ht, applyEffects_playersKG, hKG]
  · rw [hos seenO hsilent]
    refine .of_effects (f := applyO) (fun l e => by cases e <;> rfl) hes.offline ?_
    rw [ht, applyEffects_playersO, hO]
  · rw [hos seenS hsilent]
    refine .of_effects (f := applyS) (fun l e => by cases e <;> rfl) hes.signers ?_
    rw [ht, applyEffects_signers, hS]

theorem Steps.parts (hs : Steps n e t o) :
    Parts n t (o.map .inl ++ (n.notesOf e).map .inr) := by
  cases hs with
  | skipped _ => exact .still rfl rfl rfl ⟨rfl, rfl, rfl⟩
  | lost hdown => refine .still rfl rfl rfl ⟨?_, ?_, ?_⟩ <;> simp [notesOf, hdown]
  | finished _ => exact .still rfl rfl rfl ⟨rfl, rfl, rfl⟩
  | attempted _ _ _ => exact .still rfl rfl rfl ⟨rfl, rfl, rfl⟩
  | queued hup =>
      refine .still rfl rfl rfl ⟨?_, ?_, ?_⟩ <;> rw [notesOf, if_pos hup] <;> rfl
  | @received _ amb w _ _ =>
      obtain ⟨f, -, heq⟩ := receive_fate n w amb
      rw [heq]
      refine .of_effects (movesOne_effects n f) rfl rfl rfl rfl fun f hf => ?_
      simp only [notesOf, List.map_nil, List.append_nil, List.map_cons]
      rw [List.filterMap_cons_none (hf _ (by simp)), filterMap_effects]
  | @tookMail amb m rest _ _ =>
      cases hm : reported m with
      | some r =>
          rw [takeMail_reported n hm]
          refine .of_effects (movesOne_effects n _) rfl rfl rfl rfl fun f hf => ?_
          simp only [notesOf, List.map_nil, List.append_nil, List.map_cons]
          rw [List.filterMap_cons_none (hf _ (by simp)), filterMap_effects]
      | none =>
          obtain ⟨r, c, es, hh, heq⟩ := takeMail_handled n hm rest amb
          rw [heq]
          refine .of_effects (movesOne_of_handled hh) rfl rfl rfl rfl fun f hf => ?_
          simp only [notesOf, List.map_nil, List.append_nil, List.map_cons]
          rw [List.filterMap_cons_none (hf _ (by simp)), filterMap_effects]
  | fired _ => exact .still rfl rfl rfl ⟨rfl, rfl, rfl⟩
  | @tookRetry amb m rest _ _ =>
      obtain ⟨f, -, heq⟩ := takeRetry_fate n m rest amb
      rw [heq]
      refine .of_effects (movesOne_effects n f) rfl rfl rfl rfl fun f _ => ?_
      simp only [notesOf, List.map_nil, List.append_nil, filterMap_effects]
  | @ranKG _ _ now _ _ msg hget hup hbox he =>
      rw [notesOf_ranKG hget hbox he]
      refine ⟨.ran now msg hget hup hbox ?_, .still rfl ?_, .still rfl ?_⟩ <;>
        rw [List.filterMap_append, afterKG, filterMap_failures rfl] <;> rfl
  | @ranO _ _ now _ _ msg hget hup hbox he =>
      rw [notesOf_ranO hget hbox he]
      refine ⟨.still rfl ?_, .ran now msg hget hup hbox ?_, .still rfl ?_⟩ <;>
        rw [List.filterMap_append, afterO, filterMap_failures rfl] <;> rfl
  | ranS msg hget hup _ hbox he =>
      rw [notesOf_ranS hget hbox he]
      refine ⟨.still rfl ?_, .still rfl ?_, .ran () msg hget hup hbox ?_⟩ <;>
        rw [List.filterMap_append, afterS, filterMap_failuresS rfl] <;> rfl

end

/-! ## What is handed over is addressed to the room -/

/-- What the actors of a pool were posted was addressed to their rooms. -/
def AddressedTo {σ β κ ω : Type} (rooms : List String)
    (history : List (Role.Seen σ (IncomingMessage β) κ ω)) : Prop :=
  ∀ a m, .posted a m ∈ history → rooms[a]? = some m.room

section
variable {σ β κ ω ε : Type} {rooms rooms' : List String}
  {history moved : List (Role.Seen σ (IncomingMessage β) κ ω)}

theorem AddressedTo.append (h : AddressedTo rooms history)
    (hmoved : AddressedTo rooms moved) {more : List String} (hrooms : rooms' = rooms ++ more) :
    AddressedTo rooms' (history ++ moved) := by
  intro a m hm
  rw [hrooms]
  rcases List.mem_append.mp hm with hm | hm
  · exact getElem?_append_of_some (h a m hm)
  · exact getElem?_append_of_some (hmoved a m hm)

/-- What a step hands the runners of a kind is addressed to their rooms. -/
theorem Part.addressed {role : Role σ (IncomingMessage β) κ ω ε} {runners : String → Option Addr}
    {l l' : List (Actor σ (IncomingMessage β))} (h : Part role runners l l' moved)
    (hled : Registry.Points runners rooms) : AddressedTo rooms moved := by
  intro a m hm
  cases h with
  | moved hmoved _ =>
      cases hmoved with
      | nothing => cases hm
      | posted hleads =>
          cases List.mem_singleton.mp hm
          exact hled _ _ hleads
      | started s => cases List.mem_singleton.mp hm
  | ran c msg _ _ _ hran =>
      cases hran
      cases List.mem_singleton.mp hm

end

/-- What the runners of each kind were handed was addressed to their rooms. -/
structure Addressed (os : List (Obs C ⊕ Note C)) (n : Node C) : Prop where
  keygen : AddressedTo n.roomsKG (os.filterMap seenKG)
  offline : AddressedTo n.roomsO (os.filterMap seenO)
  signers : AddressedTo n.roomsS (os.filterMap seenS)

/-! ## Every runner is on its own -/

/-- The runner at `a` was started once, and is where its own calls lead it
from there. What it is handed is addressed to its room, and it takes that in
the order it was handed, each message once. -/
def Secluded {σ β κ ω ε : Type} (role : Role σ (IncomingMessage β) κ ω ε) (room : σ → String)
    (history : List (Role.Seen σ (IncomingMessage β) κ ω)) (a : Addr)
    (x : Actor σ (IncomingMessage β)) : Prop :=
  ∃ s, history.filterMap (Role.born a) = [s] ∧ room s = room x.state ∧
    role.Alone s (history.filterMap (Role.called a)) (history.filterMap (Role.posted a))
      (history.flatMap (Role.sent a)) x ∧
    ∀ m ∈ history.filterMap (Role.posted a), m.room = room s

/-- No session of any kind sees anything of another. -/
structure Isolated (os : List (Obs C ⊕ Note C)) (n : Node C) : Prop where
  keygen : ∀ a x, n.playersKG[a]? = some x →
    Secluded (roleKG C) (·.room) (os.filterMap seenKG) a x
  offline : ∀ a x, n.playersO[a]? = some x → Secluded (roleO C) (·.room) (os.filterMap seenO) a x
  signers : ∀ a x, n.signers[a]? = some x →
    Secluded (roleS C) (·.task.room) (os.filterMap seenS) a x

section
variable {guard : Node C → Event → Prop} {sk : C.SecretKey} {db : Tree C}
  {os : List (Obs C ⊕ Note C)} {n : Node C}
  (hrun : Run (noting step notesOf) guard (init sk db) os n)
include hrun

theorem addressed_of_run : Addressed os n := by
  refine hrun.invariant (fun os n => Addressed os n)
    ⟨(fun a m hm => by cases hm), (fun a m hm => by cases hm), fun a m hm => by cases hm⟩ ?_
  intro os n e t o hr ih _ hs
  obtain ⟨o', hstep, rfl⟩ := noting_cases hs
  have hsteps := step_cases hstep
  have hgrows := hsteps.grows
  have hparts := hsteps.parts
  have hled := led_of_run hr.of_noting
  refine ⟨?_, ?_, ?_⟩
  · rw [List.filterMap_append]
    exact ih.keygen.append (hparts.keygen.addressed hled.keygen)
      (by rw [roomsKG, hgrows.keygen, List.map_append]; rfl)
  · rw [List.filterMap_append]
    exact ih.offline.append (hparts.offline.addressed hled.offline)
      (by rw [roomsO, hgrows.offline, List.map_append]; rfl)
  · rw [List.filterMap_append]
    exact ih.signers.append (hparts.signers.addressed hled.signers)
      (by rw [roomsS, hgrows.signers, List.map_append]; rfl)

/-- The keygen players of a node are a pool. -/
theorem poolKG_of_run : Run (roleKG C).step anyStep [] (os.filterMap seenKG) n.playersKG :=
  hrun.project fun hr _ hs => by
    obtain ⟨o', hstep, rfl⟩ := noting_cases hs
    exact (step_cases hstep).parts.keygen.projects (led_of_run hr.of_noting).keygen (length_roomsKG _)

theorem poolO_of_run : Run (roleO C).step anyStep [] (os.filterMap seenO) n.playersO :=
  hrun.project fun hr _ hs => by
    obtain ⟨o', hstep, rfl⟩ := noting_cases hs
    exact (step_cases hstep).parts.offline.projects (led_of_run hr.of_noting).offline (length_roomsO _)

theorem poolS_of_run : Run (roleS C).step anyStep [] (os.filterMap seenS) n.signers :=
  hrun.project fun hr _ hs => by
    obtain ⟨o', hstep, rfl⟩ := noting_cases hs
    exact (step_cases hstep).parts.signers.projects (led_of_run hr.of_noting).signers (length_roomsS _)

end

/-- What a pool's run and the rooms of its actors say of each of them. -/
theorem secluded_of_pool {σ β κ ω ε : Type} {role : Role σ (IncomingMessage β) κ ω ε}
    {room : σ → String} {l : List (Actor σ (IncomingMessage β))}
    {history : List (Role.Seen σ (IncomingMessage β) κ ω)}
    (hrun : Run role.step anyStep [] history l)
    (hkeeps : ∀ s c m, room (role.call s c m).2.1 = room s)
    (haddressed : AddressedTo (l.map fun x => room x.state) history) {a : Addr}
    {x : Actor σ (IncomingMessage β)} (hget : l[a]? = some x) :
    Secluded role room history a x := by
  obtain ⟨s, hborn, halone⟩ := (Role.pooled_of_run hrun).alone a x hget
  have hroom : room s = room x.state := by
    rw [halone.state, Role.live_keeps hkeeps]
  refine ⟨s, hborn, hroom, halone, fun m hm => ?_⟩
  obtain ⟨y, hy, hposted⟩ := List.mem_filterMap.mp hm
  obtain rfl := Role.posted_eq_some.mp hposted
  have hgiven := haddressed _ _ hy
  rw [List.getElem?_map, hget] at hgiven
  exact (Option.some.inj hgiven).symm.trans hroom.symm

/-- **Sessions do not mix.** In every run of a node, whatever its sessions and
the order of their messages: each runner was started once, was handed only
messages of its own room, took them in the order they came, each once, and is
where these messages and its own ticks lead it from its start. -/
theorem isolated_of_run {guard : Node C → Event → Prop} {sk : C.SecretKey} {db : Tree C}
    {os : List (Obs C ⊕ Note C)} {n : Node C}
    (hrun : Run (noting step notesOf) guard (init sk db) os n) : Isolated os n where
  keygen a x hget := by
    refine secluded_of_pool (poolKG_of_run hrun) (fun p now m => ?_) ?_ hget
    · exact (callKG_keeps p now m).1.2.1
    · have h := (addressed_of_run hrun).keygen
      rwa [roomsKG, identitiesKG, List.map_map] at h
  offline a x hget := by
    refine secluded_of_pool (poolO_of_run hrun) (fun p now m => ?_) ?_ hget
    · exact (callO_keeps p now m).1.2.1
    · have h := (addressed_of_run hrun).offline
      rwa [roomsO, identitiesO, List.map_map] at h
  signers a x hget := by
    refine secluded_of_pool (poolS_of_run hrun) (fun s _ m => ?_) ?_ hget
    · exact congrArg SignTask.room (callS_keeps s m).1.2
    · have h := (addressed_of_run hrun).signers
      rwa [roomsS, identitiesS, List.map_map] at h

end Node

namespace Sample

/-- A keygen and a signing side by side, with Alice's message to each. -/
def keygenAndSigning : Scenario where
  wires := [fromAlice "k1@73ee5cd6c20e0c08"
      { sender := 1, receiver := none, body := keygenBodyText 1 },
    fromAlice "s1@73ee5cd6c20e0c08" { sender := 1, receiver := none, body := offlineBodyText 1 }]
  messages := [{ sender := 1, receiver := none, body := keygenBodyText 1 },
    { sender := 2, receiver := none, body := keygenBodyText 1 },
    { sender := 1, receiver := none, body := offlineBodyText 1 },
    { sender := 2, receiver := none, body := offlineBodyText 1 }]

/-- The two players get one message each. -/
theorem isolated_side_by_side :
    ∃ os n, Run (noting Node.step Node.notesOf) anyStep (bobsNode keygenAndSigning shared) os n ∧
      n.roomsKG = ["k1@73ee5cd6c20e0c08"] ∧ n.roomsO = ["s1@73ee5cd6c20e0c08"] ∧
      ((os.filterMap Node.seenKG).filterMap (Role.posted 0)).length = 1 ∧
      ((os.filterMap Node.seenO).filterMap (Role.posted 0)).length = 1 ∧ Node.Isolated os n := by
  obtain ⟨os, n, hrun, hend⟩ := Run.ofTest (noting Node.step Node.notesOf) anyStep
    (bobsNode keygenAndSigning shared)
    [.request (.keygen (keygenOf "k1" [.alice, .bob] 1)), .mail allWell,
      .request (.sign (signOf "s1" [.alice, .bob] "ff")), .mail allWell,
      arrives (fromAlice "s1@73ee5cd6c20e0c08"
        { sender := 1, receiver := none, body := offlineBodyText 1 }),
      arrives (fromAlice "k1@73ee5cd6c20e0c08"
        { sender := 1, receiver := none, body := keygenBodyText 1 }), .playO 0 0, .playKG 0 0]
    (fun r => decide (r.1.roomsKG = ["k1@73ee5cd6c20e0c08"] ∧
      r.1.roomsO = ["s1@73ee5cd6c20e0c08"] ∧
      ((r.2.filterMap Node.seenKG).filterMap (Role.posted 0)).length = 1 ∧
      ((r.2.filterMap Node.seenO).filterMap (Role.posted 0)).length = 1))
    (by decide +kernel) (admits_anyStep _ _)
  obtain ⟨hKG, hO, hpostKG, hpostO⟩ := of_decide_eq_true hend
  exact ⟨os, n, hrun, hKG, hO, hpostKG, hpostO, Node.isolated_of_run hrun⟩

end Sample

end MpcServer

import MpcServer.Actors.Mailbox
import MpcServer.Outgoing
import MpcServer.Delivery

/-!
# What the runners say

A runner says what its codec writes, in its own room. The coordinator says
nothing of its own: what it gives the sink is a runner's message that it took
up, as it departs.
-/

namespace MpcServer

open Rust Rust.Method Machine

variable {C : Crates}

namespace MpcPlayer

variable {I SM β ε ο : Type} [StateMachine SM β ε ο]

/-- An outgoing message is a text of the codec. -/
def Speaks (codec : Serde (Msg β) String) : PlayerSend I β ε ο → Prop
  | .outgoing m => ∃ g, codec.write g = some m.message
  | _ => True

/-- Whatever the player's state, what a method sends is spoken. -/
abbrev KeepsSpeech {α δ : Type} (codec : Serde (Msg β) String)
    (m : Method (MpcPlayer I SM) (PlayerSend I β ε ο) δ α) : Prop :=
  Keeps (fun _ => True) (Speaks codec) m

section
variable (codec : Serde (Msg β) String)

omit [StateMachine SM β ε ο] in
theorem sendError_speaks (e : ε) (m : IncomingMessage (Msg β)) :
    KeepsSpeech codec (sendError e m : Call I SM β ε ο Unit) :=
  keeps_bind_self fun _ _ => keeps_emit trivial

theorem handleIncoming_speaks (m : IncomingMessage (Msg β)) :
    KeepsSpeech codec (handleIncoming m : Call I SM β ε ο Unit) := by
  refine keeps_bind_self fun p _ => keeps_bind (keeps_modify fun _ _ => trivial) fun _ => ?_
  split
  · exact keeps_pure _
  · exact sendError_speaks codec _ _

theorem proceedIfNeeded_speaks :
    KeepsSpeech codec (proceedIfNeeded : Call I SM β ε ο Unit) := by
  refine keeps_bind_self fun p _ => keeps_ite (fun _ => ?_) fun _ => keeps_pure _
  refine keeps_bind (keeps_modify fun _ _ => trivial) fun _ => ?_
  split
  · exact keeps_pure _
  · exact keeps_bind (keeps_emit trivial) fun _ => keeps_question _

/-- The queue is where speech comes from. -/
theorem sendOutgoing_speaks :
    KeepsSpeech codec (sendOutgoing codec : Call I SM β ε ο Unit) := by
  refine keeps_bind_self fun p _ => keeps_bind (keeps_modify fun _ _ => trivial) fun _ => ?_
  refine keeps_emitAll fun o ho => ?_
  obtain ⟨text, htext, rfl⟩ := List.mem_map.mp ho
  obtain ⟨g, -, hg⟩ := List.mem_filterMap.mp htext
  exact ⟨g, hg⟩

theorem finishIfPossible_speaks :
    KeepsSpeech codec (finishIfPossible : Call I SM β ε ο Unit) := by
  refine keeps_bind_self fun p _ => keeps_ite (fun _ => ?_) fun _ => keeps_pure _
  refine keeps_bind (keeps_modify fun _ _ => trivial) fun _ => ?_
  split
  · exact keeps_bind_self fun _ _ => keeps_emit trivial
  · exact keeps_bind (keeps_emit trivial) fun _ => keeps_question _
  · exact keeps_pure _

theorem refreshTimer_speaks (now : Nat) :
    KeepsSpeech codec (refreshTimer now : Call I SM β ε ο Unit) :=
  keeps_bind_self fun _ _ =>
    keeps_ite (fun _ => keeps_modify fun _ _ => trivial) fun _ => keeps_pure _

theorem maybeProceed_speaks (now : Nat) :
    KeepsSpeech codec (maybeProceed codec now : Call I SM β ε ο Unit) :=
  keeps_bind (sendOutgoing_speaks codec) fun _ =>
  keeps_bind (refreshTimer_speaks codec now) fun _ =>
  keeps_bind (proceedIfNeeded_speaks codec) fun _ =>
  keeps_bind (sendOutgoing_speaks codec) fun _ =>
  keeps_bind (refreshTimer_speaks codec now) fun _ =>
  keeps_bind (keeps_attempt (finishIfPossible_speaks codec)) fun _ => keeps_pure _

theorem handle_speaks (checks : Bool) (now : Nat) (m : IncomingMessage (Msg β)) :
    KeepsSpeech codec (handle checks codec now m : Call I SM β ε ο Unit) := by
  refine keeps_bind_self fun p _ => keeps_ite (fun _ => keeps_pure _) fun _ => ?_
  refine keeps_ite (fun _ => ?_) fun _ => keeps_pure _
  refine keeps_bind (keeps_orPanic _) fun n => ?_
  refine keeps_bind (keeps_modify fun _ _ => trivial) fun _ => ?_
  refine keeps_bind (handleIncoming_speaks codec m) fun _ => ?_
  refine keeps_bind (keeps_attempt (maybeProceed_speaks codec now)) fun r => ?_
  split
  · exact keeps_pure _
  · exact sendError_speaks codec _ _

theorem tick_speaks (now : Nat) :
    KeepsSpeech codec (tick codec now : Call I SM β ε ο Unit) :=
  keeps_bind_self fun _ _ =>
    keeps_ite (fun _ => keeps_bind (keeps_attempt (maybeProceed_speaks codec now)) fun _ =>
      keeps_pure _) fun _ => keeps_pure _

end

end MpcPlayer

namespace Signer

/-- A signer speaks to everybody, as itself. -/
def Speaks (s : Signer C) : SignerSend C → Prop
  | .outgoing m => ∃ g, g.sender = s.task.index ∧ g.receiver = none ∧
      C.msgS.write g = some m.message
  | _ => True

theorem finishIfPossible_speaks (s : Signer C) :
    Keeps (Same s) (Speaks s) (finishIfPossible : Call C Unit) := by
  refine keeps_bind_self fun r _ => ?_
  split
  · exact keeps_bind (keeps_emit trivial) fun _ => keeps_question _
  · refine keeps_ite (fun _ => ?_) fun _ => keeps_pure _
    split
    · exact keeps_emit trivial
    · exact keeps_emit trivial

theorem started_speaks (s : Signer C) : Keeps (Same s) (Speaks s) (started : Call C Unit) := by
  refine keeps_bind (keeps_attempt (keeps_bind_self fun r hr => ?_)) fun _ => keeps_pure _
  refine keeps_bind (keeps_question _) fun ⟨_, partialSig⟩ => ?_
  dsimp only
  split
  · rename_i text htext
    exact keeps_emit ⟨_, congrArg SignTask.index hr.2, rfl, htext⟩
  · exact keeps_pure _

theorem handle_speaks (s : Signer C) (m : IncomingS C) :
    Keeps (Same s) (Speaks s) (handle m : Call C Unit) :=
  keeps_bind_self fun _ _ => keeps_ite (fun _ => keeps_pure _) fun _ =>
    keeps_bind (keeps_modify fun _ h => h) fun _ =>
      keeps_bind (keeps_attempt (finishIfPossible_speaks s)) fun _ => keeps_pure _

end Signer

namespace Node

/-! ## Calls -/

theorem callKG_speaks (p : PlayerKG C) (now : Nat) (msg : Option (IncomingKG C)) :
    ∀ s ∈ (callKG p now msg).2.2, MpcPlayer.Speaks C.msgKG s := by
  cases msg with
  | none => exact (MpcPlayer.tick_speaks C.msgKG now p trivial).2
  | some m => exact (MpcPlayer.handle_speaks C.msgKG C.overflowChecks now m p trivial).2

theorem callO_speaks (p : PlayerO C) (now : Nat) (msg : Option (IncomingO C)) :
    ∀ s ∈ (callO p now msg).2.2, MpcPlayer.Speaks C.msgO s := by
  cases msg with
  | none => exact (MpcPlayer.tick_speaks C.msgO now p trivial).2
  | some m => exact (MpcPlayer.handle_speaks C.msgO C.overflowChecks now m p trivial).2

theorem callS_speaks (s : Signer C) (msg : Option (IncomingS C)) :
    ∀ o ∈ (callS s msg).2.2, Signer.Speaks s o := by
  cases msg with
  | none => exact (Signer.started_speaks s s (.refl s)).2
  | some m => exact (Signer.handle_speaks s m s (.refl s)).2

/-! ## The mail of a node -/

/-- A runner of the node says the message in its room, to this receiver. -/
inductive Said (n : Node C) (msg : CoreMessage) (receiver : Option UInt16) : Prop
  | keygen {i m} : i ∈ n.identitiesKG → i.room = msg.room → m.receiver = receiver →
      C.msgKG.write m = some msg.message → Said n msg receiver
  | offline {i m} : i ∈ n.identitiesO → i.room = msg.room → m.receiver = receiver →
      C.msgO.write m = some msg.message → Said n msg receiver
  | sign {i m} : i ∈ n.identitiesS → i.task.room = msg.room → m.sender = i.task.index →
      m.receiver = receiver → C.msgS.write m = some msg.message → Said n msg receiver

section
variable {n t : Node C} {e : Event} {o os : List (Obs C)} {msg : CoreMessage}
  {receiver : Option UInt16}

theorem Said.serialised (h : Said n msg receiver) : Serialised C receiver msg.message := by
  cases h with
  | keygen _ _ hreceiver hm => exact .keygen hreceiver hm
  | offline _ _ hreceiver hm => exact .offline hreceiver hm
  | sign _ _ _ hreceiver hm => exact .sign hreceiver hm

theorem Said.grows (h : Said n msg receiver) (hg : Grows n t o) : Said t msg receiver := by
  cases h with
  | keygen hi hroom hreceiver hm =>
      exact .keygen (by rw [hg.keygen]; exact List.mem_append_left _ hi) hroom hreceiver hm
  | offline hi hroom hreceiver hm =>
      exact .offline (by rw [hg.offline]; exact List.mem_append_left _ hi) hroom hreceiver hm
  | sign hi hroom hsender hreceiver hm =>
      exact .sign (by rw [hg.signers]; exact List.mem_append_left _ hi) hroom hsender hreceiver hm

/-- A message that comes into the mailbox was just said. -/
theorem Steps.said (hs : Steps n e t o) (h : .outgoing msg ∈ t.mailbox) :
    .outgoing msg ∈ n.mailbox ∨ ∃ receiver, Said n msg receiver := by
  cases hs with
  | skipped _ => exact .inl h
  | lost _ => exact .inl h
  | finished _ => exact .inl h
  | attempted _ _ _ => exact .inl h
  | queued _ => exact .inl (by simpa using h)
  | received _ _ => exact .inl (by simpa [receive] using h)
  | tookMail _ hbox =>
      rw [hbox]
      exact .inl (List.mem_cons_of_mem _ (by simpa [takeMail] using h))
  | fired _ => exact .inl h
  | tookRetry _ _ => exact .inl (by simpa [takeRetry] using h)
  | @ranKG _ a now x rest call hget _ _ _ =>
      refine (List.mem_append.mp h).imp_right fun h => ?_
      obtain ⟨s, hs, hmail⟩ := List.mem_filterMap.mp h
      cases s <;> cases hmail
      have hroom := (callKG_keeps x.state now call).2 _ hs
      obtain ⟨m, hm⟩ := callKG_speaks x.state now call _ hs
      exact ⟨_, .keygen (List.mem_map_of_mem (List.mem_of_getElem? hget)) hroom.symm rfl hm⟩
  | @ranO _ a now x rest call hget _ _ _ =>
      refine (List.mem_append.mp h).imp_right fun h => ?_
      obtain ⟨s, hs, hmail⟩ := List.mem_filterMap.mp h
      cases s <;> cases hmail
      have hroom := (callO_keeps x.state now call).2 _ hs
      obtain ⟨m, hm⟩ := callO_speaks x.state now call _ hs
      exact ⟨_, .offline (List.mem_map_of_mem (List.mem_of_getElem? hget)) hroom.symm rfl hm⟩
  | @ranS _ a x rest call hget _ _ _ _ =>
      refine (List.mem_append.mp h).imp_right fun h => ?_
      obtain ⟨s, hs, hmail⟩ := List.mem_filterMap.mp h
      cases s <;> cases hmail
      have hroom := (callS_keeps x.state call).2 _ hs
      obtain ⟨m, hsender, -, hm⟩ := callS_speaks x.state call _ hs
      exact ⟨_, .sign (List.mem_map_of_mem (List.mem_of_getElem? hget)) hroom.symm hsender rfl hm⟩

/-- What is taken up waited at the head of the mailbox. -/
theorem Steps.mem_of_handled (hs : Steps n e t o) {m : Mail C} (h : .handled m ∈ o) :
    m ∈ n.mailbox := by
  obtain ⟨kept, -, hn, -⟩ := hs.mailbox
  rw [hn]
  exact List.mem_append_left _ (List.mem_filterMap.mpr ⟨_, h, rfl⟩)

end

section
variable {guard : Node C → Event → Prop} {sk : C.SecretKey} {db : Tree C} {os : List (Obs C)}
  {n : Node C}

/-- **The runners do all the talking.** In every run a message that waits for the
coordinator, or that it took up, was said by a runner, in its room. -/
theorem said_of_run (hrun : Run step guard (init sk db) os n) {msg : CoreMessage}
    (h : .outgoing msg ∈ n.mailbox ∨ .handled (.outgoing msg) ∈ os) :
    ∃ receiver, Said n msg receiver := by
  revert msg
  refine hrun.invariant (fun os n => ∀ {msg : CoreMessage},
    .outgoing msg ∈ n.mailbox ∨ .handled (.outgoing msg) ∈ os → ∃ receiver, Said n msg receiver)
    (fun h => by rcases h with h | h <;> cases h) ?_
  intro os n e t o _ ih _ hs msg h
  have hsteps := step_cases hs
  have hbefore : (∃ receiver, Said n msg receiver) → ∃ receiver, Said t msg receiver :=
    fun ⟨receiver, hsaid⟩ => ⟨receiver, hsaid.grows hsteps.grows⟩
  refine hbefore ?_
  rcases h with h | h
  · exact (hsteps.said h).elim (fun h => ih (.inl h)) id
  · rcases List.mem_append.mp h with h | h
    · exact ih (.inr h)
    · exact ih (.inl (hsteps.mem_of_handled h))

/-- What the sink was given departed from what a runner said; the store it departed
by is part of the store there is now. -/
theorem departed_of_run (hrun : Run step guard (init sk db) os n) {sent : CoreMessage}
    (h : .effect (.send sent) ∈ os) :
    ∃ c amb msg, .handled (.outgoing msg) ∈ os ∧ Continues c n.coordinator ∧
      c.Departs amb msg sent := by
  revert h
  refine hrun.invariant (fun os n => .effect (.send sent) ∈ os →
    ∃ c amb msg, .handled (.outgoing msg) ∈ os ∧ Continues c n.coordinator ∧
      c.Departs amb msg sent) (fun h => by cases h) ?_
  intro os n e t o _ ih _ hs h
  have hcontinues := (step_cases hs).continues
  rcases List.mem_append.mp h with h | h
  · obtain ⟨c, amb, msg, hmem, hc, hdeparts⟩ := ih h
    exact ⟨c, amb, msg, List.mem_append_left _ hmem, hc.trans hcontinues, hdeparts⟩
  · obtain ⟨amb, msg, rest, rfl, hbox, hdeparts⟩ := (send_mem_iff hs).mp h
    refine ⟨_, amb, msg, List.mem_append_right _ ?_, hcontinues, hdeparts⟩
    obtain ⟨m, rest', hbox', htook⟩ := (step_cases hs).mail
    cases hbox.symm.trans hbox'
    cases htook
    exact List.mem_cons_self

end

/-! ## The way to the broker -/

/-- What the coordinator gives its sink. -/
def given : Obs C → Option CoreMessage
  | .effect (.send m) => some m
  | _ => none

/-- What a `send_one` takes to the broker. -/
def toBroker : Obs C → Option CoreMessage
  | .attempted m _ _ => some m
  | _ => none

theorem applyEffects_outbox (es : List (Effect C)) (n : Node C) :
    (es.foldl applyEffect n).outbox = n.outbox ++ (es.map Obs.effect).filterMap given := by
  rw [List.filterMap_map]
  exact applyEffects_appends (fun _ e => by cases e <;> simp [applyEffect, given]) es n

theorem applyEffects_sink (es : List (Effect C)) (n : Node C) :
    (es.foldl applyEffect n).sink = n.sink :=
  applyEffects_keeps (fun _ e => by cases e <;> rfl) es n

/-- What goes through the sink in a step: the message that waited first, or nothing. -/
inductive Passes (n t : Node C) (o : List (Obs C)) : Event → Prop
  | attempted {fate m rest sink text up} : n.outbox = m :: rest →
      Posts n.sink fate m sink up text → t.sink = sink → t.outbox = rest →
      o = [.attempted m text up] → Passes n t o (.sendOne fate)
  | given {e} : t.sink = n.sink → t.outbox = n.outbox ++ o.filterMap given →
      (∀ x ∈ o, toBroker x = none) → Passes n t o e

section
variable {n t : Node C} {e : Event} {o os : List (Obs C)}

theorem Steps.passes (hs : Steps n e t o) : Passes n t o e := by
  have hnothing : t.sink = n.sink → t.outbox = n.outbox → (∀ x ∈ o, given x = none) →
      (∀ x ∈ o, toBroker x = none) → Passes n t o e := by
    intro hsink hbox hgiven
    refine .given hsink ?_
    rw [List.filterMap_eq_nil_iff.mpr hgiven, List.append_nil, hbox]
  have hperform (n' : Node C) (h : Coordinator.Call C String Unit) :
      ∀ x ∈ (perform n' h).2, toBroker x = none := by
    intro x hx
    obtain ⟨_, -, rfl⟩ := List.mem_map.mp hx
    rfl
  cases hs with
  | skipped _ => exact hnothing rfl rfl (by simp) (by simp)
  | finished _ => exact hnothing rfl rfl (by simp [Node.given]) (by simp [toBroker])
  | attempted _ hbox hpost => exact .attempted hbox hpost rfl rfl rfl
  | lost _ => exact hnothing rfl rfl (by simp) (by simp)
  | queued _ => exact hnothing rfl rfl (by simp) (by simp)
  | received _ _ =>
      refine .given (applyEffects_sink _ _) (applyEffects_outbox _ _) ?_
      exact List.forall_mem_cons.mpr ⟨rfl, hperform _ _⟩
  | tookMail _ _ =>
      refine .given (applyEffects_sink _ _) (applyEffects_outbox _ _) ?_
      exact List.forall_mem_cons.mpr ⟨rfl, hperform _ _⟩
  | fired _ => exact hnothing rfl rfl (by simp) (by simp)
  | tookRetry _ _ =>
      exact .given (applyEffects_sink _ _) (applyEffects_outbox _ _) (hperform _ _)
  | ranKG _ _ _ _ _ =>
      refine hnothing rfl rfl (fun x hx => ?_) fun x hx => ?_ <;>
      · obtain rfl := eq_of_mem_failures hx
        rfl
  | ranO _ _ _ _ _ =>
      refine hnothing rfl rfl (fun x hx => ?_) fun x hx => ?_ <;>
      · obtain rfl := eq_of_mem_failures hx
        rfl
  | ranS _ _ _ _ _ _ =>
      refine hnothing rfl rfl (fun x hx => ?_) fun x hx => ?_ <;>
      · obtain rfl := eq_of_mem_failuresS hx
        rfl

/-- What was given to the sink was attempted, in this order, or still waits; the sink has
the server's key, and what came through carries it. -/
structure Sends (sk : C.SecretKey) (os : List (Obs C)) (n : Node C) : Prop where
  sink : ∀ state, n.sink = some state → state = .join () sk
  order : os.filterMap given = os.filterMap toBroker ++ n.outbox
  texts : ∀ m text up, .attempted m (some text) up ∈ os →
    envelopeText (.join () sk) m = some text

theorem Sends.init (sk : C.SecretKey) (db : Tree C) : Sends sk [] (init sk db) where
  sink state h := by cases h; rfl
  order := rfl
  texts _ _ _ h := by cases h

theorem Sends.step {sk : C.SecretKey} (h : Sends sk os n) (hs : Steps n e t o) :
    Sends sk (os ++ o) t := by
  cases hs.passes with
  | given hsink hbox hnone =>
      refine ⟨fun state hstate => h.sink state (hsink ▸ hstate), ?_, fun m text up hm => ?_⟩
      · rw [List.filterMap_append, List.filterMap_append, h.order,
          List.filterMap_eq_nil_iff.mpr hnone, List.append_nil, hbox, List.append_assoc]
      · exact (List.mem_append.mp hm).elim (h.texts m text up) fun hm => by cases hnone _ hm
  | @attempted fate m rest sink text up hbox hpost hsink hrest ho =>
      subst ho
      refine ⟨fun state hstate => h.sink state (hpost.state (hsink ▸ hstate)), ?_,
        fun m' text' up' hm => ?_⟩
      · rw [List.filterMap_append, List.filterMap_append, h.order, hbox, hrest]
        simp [Node.given, toBroker]
      · refine (List.mem_append.mp hm).elim (h.texts m' text' up') fun hm => ?_
        cases List.mem_singleton.mp hm
        obtain ⟨state, hstate, htext⟩ := hpost.text rfl
        exact h.sink state hstate ▸ htext

/-- **The sink carries what it was given**, one message after the other, each signed with
the server's own key. -/
theorem sends_of_run {guard : Node C → Event → Prop} {sk : C.SecretKey} {db : Tree C}
    (hrun : Run step guard (init sk db) os n) : Sends sk os n :=
  hrun.invariant (Sends sk) (.init sk db) fun _ h _ hs => h.step (step_cases hs)

end

end Node

end MpcServer

import MpcServer.Lib.Unfold
import MpcServer.Transport

/-!
# The way out to the broker

A server joins one of two brokers. Either gives it a stream of texts and a sink. The
sink owns the client and the key, signs what it is sent and hands it to the client.
-/

namespace MpcServer

open Rust

variable {C : Crates} {Client : Type}

variable (C Client) in
/-- What both sinks are unfolded from. -/
structure Outgoing where
  client : Client
  key : C.SecretKey
  pubKey : String

/-- A message for the sink, and whether the broker takes its broadcast. -/
structure Posting where
  envelope : CoreMessage
  broadcastOk : Bool
  deriving DecidableEq, Repr

/-- `broadcast`; `publish` is what it makes of the client. -/
def broadcast (publish : Client → String → Client) (client : Client) (ok : Bool)
    (message : String) : Except String Client :=
  if ok then .ok (publish client message) else .error "broadcast"

/-- The closure both sinks are unfolded with. -/
def forward (publish : Client → String → Client) (state : Outgoing C Client)
    (unsigned : Posting) : Except String (Outgoing C Client) := do
  let signed ← withContext (signEnvelope (C := C) state.key state.pubKey unsigned.envelope)
    "Failed to sign"
  let serialized ← context (C.wireMessage.write signed) "serde_json"
  let client ← withContext
    (broadcast publish state.client unsigned.broadcastOk serialized) "broadcast message"
  pure { state with client }

/-- `join_computation_via_messenger`: an HTTP client stays what it is. -/
def outgoingViaMessenger : Outgoing C Client → Posting → Except String (Outgoing C Client) :=
  forward fun client _ => client

/-- `join_computation_via_redis`: publishing changes the connection. -/
def outgoingViaRedis (publish : Client → String → Client) :
    Outgoing C Client → Posting → Except String (Outgoing C Client) :=
  forward publish

/-- What a sink begins with. -/
def Outgoing.join (client : Client) (key : C.SecretKey) : Outgoing C Client :=
  { client, key, pubKey := C.ownKey key }

/-- The envelope can be signed and written, and the broker takes it. -/
def goes (state : Outgoing C Client) (x : Posting) : Bool :=
  match signEnvelope (C := C) state.key state.pubKey x.envelope with
  | .ok signed => (C.wireMessage.write signed).isSome && x.broadcastOk
  | .error _ => false

/-- Neither closure changes the keys, so the message decides. -/
theorem forward_decides (publish : Client → String → Client) (state : Outgoing C Client) :
    Unfold.Decides (forward publish)
      (fun s : Outgoing C Client => s.key = state.key ∧ s.pubKey = state.pubKey) (goes state) where
  isOk := by
    rintro s x ⟨hkey, hpub⟩
    unfold forward goes broadcast
    rw [hkey, hpub]
    cases signEnvelope (C := C) state.key state.pubKey x.envelope with
    | error e => rfl
    | ok signed =>
        cases hwrite : C.wireMessage.write signed with
        | none => simp [hwrite, bind, Except.bind, Except.isOk, Except.toBool]
        | some text =>
            cases hok : x.broadcastOk <;>
              simp [hwrite, bind, Except.bind, pure, Except.pure, Except.isOk, Except.toBool]
  keeps := by
    rintro s x s' ⟨hkey, hpub⟩ h
    simp only [forward, bind_eq_ok] at h
    obtain ⟨signed, -, text, -, client, -, h⟩ := h
    cases h
    exact ⟨hkey, hpub⟩

/-! ## One send -/

/-- What becomes of a post: the broker takes it and answers; it answers with an error
status, which `SmClient::broadcast` does not look at; it takes it and the answer is lost
on its way; or it does not get there. -/
inductive PostFate
  | answered
  | declined
  | unanswered
  | failed
  deriving DecidableEq, Repr

namespace PostFate

/-- `broadcast` returns `Ok`. -/
def isOk : PostFate → Bool
  | .answered | .declined => true
  | .unanswered | .failed => false

/-- The broker takes the text. -/
def arrives : PostFate → Bool
  | .answered | .unanswered => true
  | .declined | .failed => false

end PostFate

/-- The text that is posted for a message. -/
def envelopeText (state : Outgoing C Unit) (m : CoreMessage) : Option String :=
  match signEnvelope (C := C) state.key state.pubKey m with
  | .ok signed => C.wireMessage.write signed
  | .error _ => none

/-- What is left of the sink after a send, and the text that reached the broker; nothing
where the send panics. The client of either broker is left out. -/
def post (sink : Option (Outgoing C Unit)) (fate : PostFate) (m : CoreMessage) :
    Option (Option (Outgoing C Unit) × Option String) :=
  (Unfold.send outgoingViaMessenger sink { envelope := m, broadcastOk := fate.isOk }).map
    fun r => (r.2, if fate.arrives then sink.bind (envelopeText · m) else none)

/-- **What a send can do** to the sink, to its owner and to the broker. -/
inductive Posts : Option (Outgoing C Unit) → PostFate → CoreMessage →
    Option (Outgoing C Unit) → Bool → Option String → Prop
  | sent {state fate m text} : fate.isOk = true → envelopeText state m = some text →
      Posts (some state) fate m (some state) true (if fate.arrives then some text else none)
  | refused {state fate m text} : (fate.isOk = true → envelopeText state m = none) →
      (∀ t, text = some t → envelopeText state m = some t) →
      Posts (some state) fate m none true text
  | panicked {fate m} : Posts none fate m none false none

/-- With a state there is no panic. -/
theorem Posts.up {sink sink' : Option (Outgoing C Unit)} {fate : PostFate} {m : CoreMessage}
    {up : Bool} {text : Option String} (h : Posts sink fate m sink' up text)
    (hsink : sink.isSome = true) : up = true := by
  cases h with
  | sent _ _ => rfl
  | refused _ _ => rfl
  | panicked => cases hsink

/-- The state that is left is the one there was. -/
theorem Posts.state {sink sink' : Option (Outgoing C Unit)} {fate : PostFate} {m : CoreMessage}
    {up : Bool} {text : Option String} (h : Posts sink fate m sink' up text)
    {state : Outgoing C Unit} (hstate : sink' = some state) : sink = some state := by
  cases h with
  | sent _ _ => exact hstate
  | refused _ _ => cases hstate
  | panicked => cases hstate

/-- The text that arrives is that of the message, signed with the state there was. -/
theorem Posts.text {sink sink' : Option (Outgoing C Unit)} {fate : PostFate} {m : CoreMessage}
    {up : Bool} {text : Option String} (h : Posts sink fate m sink' up text) {t : String}
    (ht : text = some t) : ∃ state, sink = some state ∧ envelopeText state m = some t := by
  cases h with
  | sent _ htext =>
      split at ht
      · exact ⟨_, rfl, htext.trans ht⟩
      · cases ht
  | refused _ htext => exact ⟨_, rfl, htext t ht⟩
  | panicked => cases ht

theorem goes_eq (state : Outgoing C Unit) (m : CoreMessage) (ok : Bool) :
    goes state { envelope := m, broadcastOk := ok } = ((envelopeText state m).isSome && ok) := by
  unfold goes envelopeText
  cases signEnvelope (C := C) state.key state.pubKey m <;> rfl

/-- The sink comes back as it was, or not at all. -/
theorem send_cases (state : Outgoing C Unit) (m : CoreMessage) (ok : Bool) :
    (∃ text, ok = true ∧ envelopeText state m = some text ∧
      Unfold.send outgoingViaMessenger (some state) { envelope := m, broadcastOk := ok } =
        some (.ok (), some state)) ∨
    ∃ e, (ok = true → envelopeText state m = none) ∧
      Unfold.send outgoingViaMessenger (some state) { envelope := m, broadcastOk := ok } =
        some (.error e, none) := by
  have hdecides : Unfold.Decides outgoingViaMessenger _ (goes state) :=
    forward_decides (fun client _ => client) state
  have hgoes := goes_eq state m ok
  cases hok : goes state { envelope := m, broadcastOk := ok } with
  | true =>
      rw [hok, eq_comm, Bool.and_eq_true] at hgoes
      obtain ⟨text, htext⟩ := Option.isSome_iff_exists.mp hgoes.1
      obtain ⟨s', ⟨hkey, hpub⟩, hsend⟩ := hdecides.send_good ⟨rfl, rfl⟩ hok
      obtain rfl : s' = state := by
        cases s'
        cases state
        simp only [Outgoing.mk.injEq, true_and]
        exact ⟨hkey, hpub⟩
      exact .inl ⟨text, hgoes.2, htext, hsend⟩
  | false =>
      obtain ⟨e, hsend⟩ := hdecides.send_bad ⟨rfl, rfl⟩ hok
      refine .inr ⟨e, fun h => ?_, hsend⟩
      rw [hok, h, Bool.and_true] at hgoes
      exact Option.not_isSome_iff_eq_none.mp (by rw [← hgoes]; decide)

theorem posts_of_some {sink sink' : Option (Outgoing C Unit)} {fate : PostFate} {m : CoreMessage}
    {text : Option String} (h : post sink fate m = some (sink', text)) :
    Posts sink fate m sink' true text := by
  cases sink with
  | none => cases h
  | some state =>
      unfold post at h
      rcases send_cases state m fate.isOk with ⟨text', hok, htext, hsend⟩ | ⟨e, hnone, hsend⟩
      · rw [hsend, Option.map_some, Option.bind_some, htext] at h
        cases h
        exact .sent hok htext
      · rw [hsend, Option.map_some, Option.bind_some] at h
        cases h
        refine .refused hnone fun t ht => ?_
        split at ht
        · exact ht
        · cases ht

theorem posts_of_none {sink : Option (Outgoing C Unit)} {fate : PostFate} {m : CoreMessage}
    (h : post sink fate m = none) : Posts sink fate m none false none := by
  cases sink with
  | none => exact .panicked
  | some state => cases h

end MpcServer

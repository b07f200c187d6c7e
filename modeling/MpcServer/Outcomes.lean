import MpcServer.Actors.Isolation
import MpcServer.Actors.SignerRun
import MpcServer.Shares

/-!
# Where the results come from

A status `Done` is the end of a chain: a request was taken up and its player
started, the player was handed messages of its room until it put out a result,
for a signing that result went into a signer, which was handed messages in its
turn. The chain can be followed back from every result that is ever reported.
-/

namespace MpcServer

open Rust Rust.Method Machine

variable {C : Crates}

namespace Signer

/-- A signer that cannot begin puts nothing out. -/
theorem outputs_of_none {s : Signer C}
    (hnew : C.signManualNew s.task.message s.task.completedOfflineStage = none)
    (ms : List (IncomingS C)) : s.outputs ms = [] := by
  induction ms generalizing s with
  | nil => rfl
  | cons m ms ih =>
      by_cases hown : m.message.sender = s.task.index
      · simpa [outputs, feed, handle_run, hown] using ih hnew
      · have hnew' : C.signManualNew (s.push m.message.body).task.message
            (s.push m.message.body).task.completedOfflineStage = none := hnew
        have hverdict : (s.push m.message.body).verdict = [.failed] := by
          simp [verdict, hnew]
        have hsilent : outputOf (.failed : SignerSend C) = none := rfl
        have hstep : s.outputs (m :: ms) = (s.push m.message.body).outputs ms := by
          simp [outputs, feed, handle_run, hown, hverdict, hsilent]
        rw [hstep, ih hnew']

/-- What a fresh signer puts out, it assembled from the first `t` parts it did
not skip. -/
theorem of_mem_outputs {s : Signer C} (hfresh : s.partialSigs = []) {ms : List (IncomingS C)}
    {out : ProtocolOutput EnrichedSignRequest C.SignatureRecid} (h : out ∈ s.outputs ms) :
    out.input = s.input ∧ s.task.t ≠ 0 ∧ s.task.t ≤ (s.pushed ms).length ∧ ∃ state own,
      C.signManualNew s.task.message s.task.completedOfflineStage = some (state, own) ∧
      C.complete state ((s.pushed ms).take s.task.t) = some out.output := by
  cases hnew : C.signManualNew s.task.message s.task.completedOfflineStage with
  | none =>
      rw [outputs_of_none hnew] at h
      cases h
  | some x =>
      obtain ⟨state, own⟩ := x
      rw [outputs_new hnew hfresh] at h
      split at h
      · rename_i hcount
        obtain ⟨sig, hsig, rfl⟩ := List.mem_map.mp h
        exact ⟨rfl, hcount.1, hcount.2, state, own, rfl, Option.mem_toList.mp hsig⟩
      · cases h

/-- Mail that comes later leaves the first `t` parts as they are. -/
theorem take_pushed_of_prefix {s : Signer C} {ms more : List (IncomingS C)} {t : Nat}
    (h : ms <+: more) (ht : t ≤ (s.pushed ms).length) :
    t ≤ (s.pushed more).length ∧ (s.pushed ms).take t = (s.pushed more).take t := by
  obtain ⟨rest, rfl⟩ := h
  have happend : s.pushed (ms ++ rest) = s.pushed ms ++ s.pushed rest := by simp [pushed]
  rw [happend, List.length_append, List.take_append_of_le_length ht]
  exact ⟨Nat.le_add_right_of_le ht, rfl⟩

/-- Its calls in a pool are its start, which puts nothing out, and its messages. -/
theorem outputs_live (s : Signer C) (calls : List (Unit × Option (IncomingS C))) :
    ((Node.roleS C).live s calls).2.filterMap outputOf = s.outputs (Role.taken calls) := by
  induction calls generalizing s with
  | nil => rfl
  | cons c calls ih =>
      obtain ⟨-, msg⟩ := c
      cases msg with
      | none =>
          obtain ⟨sends, hrun, hsends⟩ := s.started_run
          have hcall : (Node.roleS C).call s () none = (.ok (), s, sends) := hrun
          simp only [Role.live, hcall, List.filterMap_append, ih]
          rcases hsends with rfl | ⟨m, rfl⟩ <;> rfl
      | some m =>
          have hcall : (Node.roleS C).call s () (some m) = (handle m).run s := rfl
          simp only [Role.live, hcall, List.filterMap_append, ih]
          simp [outputs, Role.taken, feed]

end Signer

namespace Coordinator

variable {c c' : Coordinator C} {ctx : Ctx} {res : Except (Stop String) Unit}
  {es : List (Effect C)} {r : CheckResultResponse}

/-- Taking up a keygen request reports no result. -/
theorem KeygenRequested.not_done {req : KeygenRequest}
    (hk : KeygenRequested c req ctx res c' es) (hx : .status r ∈ es) :
    r.requestStatus ≠ .done := by
  cases hk <;> simp [processing] at hx <;> subst hx <;> simp

/-- Nor does taking up a sign request. -/
theorem SignRequested.not_done {req : SignRequest}
    (hk : SignRequested c req ctx res c' es) (hx : .status r ∈ es) :
    r.requestStatus ≠ .done := by
  cases hk <;> simp [processing] at hx <;> subst hx <;> simp

/-- The output of an offline player is reported on its way to a signer, or as an error. -/
theorem OfflineOutput.not_done
    {msg : ProtocolOutput EnrichedSignRequest C.CompletedOfflineStage}
    (hk : OfflineOutput c msg ctx res c' es) (hx : .status r ∈ es) :
    r.requestStatus ≠ .done := by
  cases hk <;> simp [processing] at hx <;> subst hx <;> simp

end Coordinator

namespace Node

/-! ## One step back

From a status to the output it reports, from an output to the runner that put
it out, from a runner to what it was started for. -/

section
variable {n t : Node C} {e : Event} {o : List (Obs C)}

/-- What is no delivery and no retry is an effect of a mail that is taken up. -/
theorem Steps.mail_of_effect (hs : Steps n e t o) {x : Effect C} (h : .effect x ∈ o)
    (hidle : ¬ Idle (.effect x)) :
    ∃ ctx m r c es, Handled n.coordinator ctx m r c es ∧ .handled m ∈ o ∧ x ∈ es := by
  cases hs.turns with
  | idle _ ho => exact absurd (ho _ h) hidle
  | handled _ _ hh _ _ _ ho =>
      subst ho
      obtain ⟨y, hy, heq⟩ := List.mem_map.mp (List.mem_of_ne_of_mem (by simp) h)
      cases heq
      exact ⟨_, _, _, _, _, hh, List.mem_cons_self, hy⟩

/-- A `Done` reports an output. -/
theorem Steps.output_of_done (hs : Steps n e t o) {r : CheckResultResponse}
    (h : .effect (.status r) ∈ o) (hdone : r.requestStatus = .done) :
    (∃ a out, .handled (.outputKG a out) ∈ o ∧ r = Coordinator.keygenDone out) ∨
      ∃ a out, .handled (.outputS a out) ∈ o ∧ r = Coordinator.signDone out := by
  obtain ⟨_, _, _, _, _, hh, hm, hx⟩ := hs.mail_of_effect h id
  cases hh with
  | keygenRequest hk => exact absurd hdone (hk.not_done hx)
  | signRequest hk => exact absurd hdone (hk.not_done hx)
  | outgoing hes =>
      obtain ⟨_, heq⟩ := hes _ hx
      cases heq
  | outputKG hk =>
      cases hk with
      | panicked _ => cases hx
      | done _ =>
          cases List.mem_singleton.mp hx
          exact .inl ⟨_, _, hm, rfl⟩
  | outputO hk => exact absurd hdone (hk.not_done hx)
  | outputS =>
      cases List.mem_singleton.mp hx
      exact .inr ⟨_, _, hm, rfl⟩

/-- A keygen player is started for a request, with what `Keygen::new` gives. -/
theorem Steps.keygen_of_start (hs : Steps n e t o) {a : Addr} {p : PlayerKG C}
    (h : .effect (.startKG a p) ∈ o) : .handled (.request (.keygen p.input)) ∈ o ∧
      ∃ group i state, Coordinator.BeginsKeygen n.coordinator p.input group i state ∧
        p = MpcPlayer.new p.input (makeRoomId p.input.requestId group.groupId) i state := by
  obtain ⟨_, _, _, _, _, hh, hm, hx⟩ := hs.mail_of_effect h id
  cases hh with
  | keygenRequest hk =>
      cases hk with
      | refused _ => simp at hx
      | began hbegins _ =>
          simp only [List.mem_cons, reduceCtorEq, Effect.startKG.injEq, List.not_mem_nil,
            or_false, false_or] at hx
          obtain ⟨-, rfl⟩ := hx
          exact ⟨hm, _, _, _, hbegins, rfl⟩
  | signRequest hk => cases hk <;> simp at hx
  | outgoing hes =>
      obtain ⟨_, heq⟩ := hes _ hx
      cases heq
  | outputKG hk => cases hk <;> simp at hx
  | outputO hk => cases hk <;> simp at hx
  | outputS => simp at hx

/-- An offline player is started for a request, with what `OfflineStage::new`
makes of the share that is stored for it. -/
theorem Steps.offline_of_start (hs : Steps n e t o) {a : Addr} {p : PlayerO C}
    (h : .effect (.startO a p) ∈ o) : .handled (.request (.sign p.input.inner)) ∈ o ∧
      p.room = p.input.room ∧ ∃ amb share,
        retrieveShare n.coordinator.db n.coordinator.sk amb p.input.inner.publicKey = .ok share ∧
          C.offlineStageNew p.input.i p.input.sL share.share = some p.state := by
  obtain ⟨_, _, _, _, _, hh, hm, hx⟩ := hs.mail_of_effect h id
  cases hh with
  | keygenRequest hk => cases hk <;> simp at hx
  | signRequest hk =>
      cases hk with
      | began hgroups _ _ hbegins =>
          simp only [List.mem_cons, reduceCtorEq, Effect.startO.injEq, List.not_mem_nil,
            or_false, false_or] at hx
          obtain ⟨-, rfl⟩ := hx
          exact ⟨hm, rfl, _, _, hgroups.1, hbegins.2.2⟩
      | _ => simp at hx
  | outgoing hes =>
      obtain ⟨_, heq⟩ := hes _ hx
      cases heq
  | outputKG hk => cases hk <;> simp at hx
  | outputO hk => cases hk <;> simp at hx
  | outputS => simp at hx

/-- A signer is started for the output of an offline player. -/
theorem Steps.signer_of_start (hs : Steps n e t o) {a : Addr} {s : Signer C}
    (h : .effect (.startS a s) ∈ o) : ∃ b out message, .handled (.outputO b out) ∈ o ∧
      C.bigIntFromHex out.input.inner.hash = some message ∧
        s = Coordinator.signerOf out message := by
  obtain ⟨_, _, _, _, _, hh, hm, hx⟩ := hs.mail_of_effect h id
  cases hh with
  | keygenRequest hk => cases hk <;> simp at hx
  | signRequest hk => cases hk <;> simp at hx
  | outgoing hes =>
      obtain ⟨_, heq⟩ := hes _ hx
      cases heq
  | outputKG hk => cases hk <;> simp at hx
  | outputO hk =>
      cases hk with
      | signing hhash =>
          simp only [List.mem_cons, reduceCtorEq, Effect.startS.injEq, List.not_mem_nil,
            or_false] at hx
          obtain ⟨-, rfl⟩ := hx
          exact ⟨_, _, _, hm, hhash, rfl⟩
      | badHash _ => simp at hx
  | outputS => simp at hx

end

/-! ## What a runner went through -/

theorem mem_seen {os : List (Obs C ⊕ Note C)} {x : Obs C} : x ∈ seen os ↔ .inl x ∈ os := by
  simp [seen]

theorem mem_notes {os : List (Obs C ⊕ Note C)} {x : Note C} : x ∈ notes os ↔ .inr x ∈ os := by
  simp [notes]

/-- The runner at `a`, started in `s`, put `out` out in the calls it ran. The messages it
took in them are the first that were delivered to it, in their order and each once, and
whatever was delivered to it was of its own room. -/
structure PutOut {σ β κ ω ε : Type} (role : Role σ (IncomingMessage β) κ ω ε) (room : σ → String)
    (history : List (Role.Seen σ (IncomingMessage β) κ ω)) (a : Addr) (s : σ) (out : ω) : Prop where
  output : out ∈ (role.live s (history.filterMap (Role.called a))).2
  order : Role.taken (history.filterMap (Role.called a)) <+: history.filterMap (Role.posted a)
  rooms : ∀ m ∈ history.filterMap (Role.posted a), m.room = room s

/-- **From an output back to a start**: what a runner sent was put out by the calls it ran
from the state it was started in. -/
theorem Secluded.putOut {σ β κ ω ε ι : Type} {role : Role σ (IncomingMessage β) κ ω ε}
    {room : σ → String} (identity : σ → ι)
    {moved : Effect C → Option (Role.Seen σ (IncomingMessage β) κ ω)}
    {called : Note C → Option (Role.Seen σ (IncomingMessage β) κ ω)}
    (start : Addr → σ → Effect C) {os : List (Obs C ⊕ Note C)} {a : Addr}
    {x : Actor σ (IncomingMessage β)} {out : ω}
    (h : Secluded role room (os.filterMap (seenOf moved called)) a x)
    (hkeeps : ∀ s c m, identity (role.call s c m).2.1 = identity s)
    (hmoved : ∀ e s, moved e = some (.started a s) → e = start a s)
    (hcalled : ∀ note s, called note ≠ some (.started a s))
    (hsent : out ∈ (os.filterMap (seenOf moved called)).flatMap (Role.sent a)) :
    ∃ s, .effect (start a s) ∈ seen os ∧ identity s = identity x.state ∧
      PutOut role room (os.filterMap (seenOf moved called)) a s out := by
  obtain ⟨s, hborn, -, halone, hrooms⟩ := h
  refine ⟨s, ?_, ?_, halone.sends ▸ hsent, ?_, hrooms⟩
  · have hs : s ∈ (os.filterMap (seenOf moved called)).filterMap (Role.born a) := by simp [hborn]
    obtain ⟨y, hy, heq⟩ := List.mem_filterMap.mp hs
    obtain ⟨z, hz, hview⟩ := List.mem_filterMap.mp hy
    obtain rfl := Role.born_eq_some.mp heq
    refine mem_seen.mpr ?_
    cases z with
    | inr note => exact absurd hview (hcalled note s)
    | inl z =>
        cases z with
        | effect e => exact hmoved e s hview ▸ hz
        | _ => cases hview
  · rw [halone.state, Role.live_keeps hkeeps]
  · exact (List.prefix_append _ _).trans halone.order

/-- An output is among what its runner sent. -/
def Sent (os : List (Obs C ⊕ Note C)) : Mail C → Prop
  | .outputKG a out => .output out ∈ (os.filterMap seenKG).flatMap (Role.sent a)
  | .outputO a out => .output out ∈ (os.filterMap seenO).flatMap (Role.sent a)
  | .outputS a out => .output out ∈ (os.filterMap seenS).flatMap (Role.sent a)
  | _ => True

section
variable {os : List (Obs C ⊕ Note C)} {a : Addr}

theorem sent_of_called {σ μ κ ω : Type} {view : Obs C ⊕ Note C → Option (Role.Seen σ μ κ ω)}
    {note : Note C} {c : κ} {m : Option μ} {sends : List ω} {out : ω} (hnote : .inr note ∈ os)
    (hview : view (.inr note) = some (.called a c m sends)) (hout : out ∈ sends) :
    out ∈ (os.filterMap view).flatMap (Role.sent a) := by
  have hcalled := List.mem_filterMap.mpr ⟨_, hnote, hview⟩
  exact List.mem_flatMap.mpr ⟨_, hcalled, Role.mem_sent.mpr ⟨_, _, _, rfl, hout⟩⟩

theorem sent_of_noted {note : Note C} {m : Mail C} (hnote : .inr note ∈ os)
    (hm : m ∈ mailOf note) : Sent os m := by
  cases note with
  | asked req =>
      cases List.mem_singleton.mp hm
      trivial
  | ranKG b now msg sends =>
      obtain ⟨x, hsend, hx⟩ := List.mem_filterMap.mp hm
      cases x with
      | output out =>
          cases hx
          exact sent_of_called hnote rfl hsend
      | failed => cases hx
      | _ =>
          cases hx
          trivial
  | ranO b now msg sends =>
      obtain ⟨x, hsend, hx⟩ := List.mem_filterMap.mp hm
      cases x with
      | output out =>
          cases hx
          exact sent_of_called hnote rfl hsend
      | failed => cases hx
      | _ =>
          cases hx
          trivial
  | ranS b msg sends =>
      obtain ⟨x, hsend, hx⟩ := List.mem_filterMap.mp hm
      cases x with
      | output out =>
          cases hx
          exact sent_of_called hnote rfl hsend
      | failed => cases hx
      | _ =>
          cases hx
          trivial

variable {guard : Node C → Event → Prop} {sk : C.SecretKey} {db : Tree C} {n : Node C}
  (hrun : Run (noting step notesOf) guard (init sk db) os n)
include hrun

/-- A mail that was taken up was sent. -/
theorem sent_of_handled {m : Mail C} (h : .handled m ∈ seen os) : Sent os m := by
  have hm : m ∈ (notes os).flatMap mailOf := by
    rw [mail_of_run hrun]
    exact List.mem_append_left _ (List.mem_filterMap.mpr ⟨_, h, rfl⟩)
  obtain ⟨note, hnote, hmail⟩ := List.mem_flatMap.mp hm
  exact sent_of_noted (mem_notes.mp hnote) hmail

/-- What a step put out stands in the trace with the rest of it. -/
theorem step_of_seen {x : Obs C} (hx : x ∈ seen os) :
    ∃ n₁ e t o, Steps n₁ e t o ∧ x ∈ o ∧ (∀ y ∈ o, y ∈ seen os) ∧
      Continues (init sk db).coordinator n₁.coordinator ∧
      Continues n₁.coordinator n.coordinator := by
  obtain ⟨os₁, n₁, e, t, o, os₂, hr, -, hs, ho, hrest, hos⟩ := hrun.of_noting.step_of_mem hx
  have hsteps := step_cases hs
  refine ⟨n₁, e, t, o, hsteps, ho, fun y hy => ?_, continues_of_run hr,
    hsteps.continues.trans (continues_of_run hrest)⟩
  rw [hos]
  exact List.mem_append_right _ (List.mem_append_left _ hy)

end

/-! ## Keygen -/

/-- The key was put out by a player that was started for the request, with the
machine the request asks for, from the messages of its own room that were delivered to it. -/
def GeneratedKey (sk : C.SecretKey) (os : List (Obs C ⊕ Note C)) (req : KeygenRequest)
    (key : C.LocalKey) : Prop :=
  ∃ a group i machine,
    let p : PlayerKG C := MpcPlayer.new req (makeRoomId req.requestId group.groupId) i machine
    .handled (.request (.keygen req)) ∈ seen os ∧ .effect (.startKG a p) ∈ seen os ∧
      PublicKeyGroup.new req.participantPublicKeys req.threshold.toUInt16 (C.ownKey sk) =
        .ok group ∧ group.getI = .ok i ∧ C.keygenNew i group.getT group.getN = some machine ∧
      PutOut (roleKG C) (·.room) (os.filterMap seenKG) a p (.output { input := req, output := key })

section
variable {guard : Node C → Event → Prop} {sk : C.SecretKey} {db : Tree C}
  {os : List (Obs C ⊕ Note C)} {n : Node C}
  (hrun : Run (noting step notesOf) guard (init sk db) os n)
include hrun

end

/-! ## Signing -/

/-- What the tree gives once, it gives when it has grown. -/
theorem retrieveShare_grows {db db' : Tree C} (h : FirstWrite.Keeps db db') {sk : C.SecretKey}
    {amb : Ambient} {publicKey : String} {share : StoredLocalShare C}
    (hget : retrieveShare db sk amb publicKey = .ok share) :
    retrieveShare db' sk amb publicKey = .ok share := by
  unfold retrieveShare at hget ⊢
  obtain ⟨stored, hstored, hrest⟩ := bind_eq_ok.mp hget
  refine bind_eq_ok.mpr ⟨stored, ?_, hrest⟩
  unfold Tree.get at hstored ⊢
  split at hstored
  · rw [if_pos ‹_›]
    exact context_eq_ok.mpr (h _ _ (context_eq_ok.mp hstored))
  · cases hstored

/-- The offline stage was put out by a player that was started for the request
on the share the server has for its public key, from the messages of its own room that were
delivered to it. -/
def ComputedStage (n : Node C) (os : List (Obs C ⊕ Note C)) (input : EnrichedSignRequest)
    (stage : C.CompletedOfflineStage) : Prop :=
  ∃ a p amb share, .handled (.request (.sign input.inner)) ∈ seen os ∧
    .effect (.startO a p) ∈ seen os ∧ p.input = input ∧ p.room = input.room ∧
    retrieveShare n.coordinator.db n.coordinator.sk amb input.inner.publicKey = .ok share ∧
    C.offlineStageNew input.i input.sL share.share = some p.state ∧
    PutOut (roleO C) (·.room) (os.filterMap seenO) a p (.output { input, output := stage })

/-- The signature was assembled by a signer that was started with the hash the
request asks for and with the request's own offline stage. Its parts are those in the first
`t` messages of other indices of its mail: what was delivered to it, in this order. -/
def AssembledSignature (n : Node C) (os : List (Obs C ⊕ Note C)) (input : EnrichedSignRequest)
    (signature : C.SignatureRecid) : Prop :=
  ∃ a message stage state own,
    let s : Signer C := Coordinator.signerOf { input, output := stage } message
    let mail := (os.filterMap seenS).filterMap (Role.posted a)
    .effect (.startS a s) ∈ seen os ∧ C.bigIntFromHex input.inner.hash = some message ∧
      ComputedStage n os input stage ∧ C.signManualNew message stage = some (state, own) ∧
      s.task.t ≠ 0 ∧ s.task.t ≤ (s.pushed mail).length ∧
      C.complete state ((s.pushed mail).take s.task.t) = some signature ∧
      ∀ m ∈ mail, m.room = input.room

section
variable {guard : Node C → Event → Prop} {sk : C.SecretKey} {db : Tree C}
  {os : List (Obs C ⊕ Note C)} {n : Node C}
  (hrun : Run (noting step notesOf) guard (init sk db) os n)
include hrun

theorem computedStage_of_output {a : Addr} {input : EnrichedSignRequest}
    {stage : C.CompletedOfflineStage}
    (h : .handled (.outputO a { input, output := stage }) ∈ seen os) :
    ComputedStage n os input stage := by
  obtain ⟨id, hid, hinput⟩ := (genuine_of_run hrun.of_noting).handled _ h
  rw [identitiesO, List.getElem?_map] at hid
  obtain ⟨x, hget, rfl⟩ := Option.map_eq_some_iff.mp hid
  obtain ⟨p, hstart, hsame, hputs⟩ := ((isolated_of_run hrun).offline a x hget).putOut
    (·.input) .startO (fun q now m => (callO_keeps q now m).1.1)
    (fun e s h => by cases e <;> cases h; rfl) (fun note s h => by cases note <;> cases h)
    (sent_of_handled hrun h)
  obtain rfl : p.input = input := hsame.trans hinput.symm
  obtain ⟨n₁, e, t, o, hs, ho, hsub, hbefore, hafter⟩ := step_of_seen hrun hstart
  obtain ⟨hreq, hroom, amb, share, hshare, hnew⟩ := hs.offline_of_start ho
  have hget := retrieveShare_grows hafter.db hshare
  rw [← hafter.sk] at hget
  exact ⟨a, p, amb, share, hsub _ hreq, hstart, rfl, hroom, hget, hnew, hputs⟩

/-- **Where a signature comes from.** In every run, what is reported as the
result of a signing is the signature its two stages computed: the offline
stage on the server's share for the public key, the signer on the hash of the
request and that stage's result, both from messages of the request's own room. -/
theorem assembledSignature_of_done {r : CheckResultResponse}
    (hr : .effect (.status r) ∈ seen os) (htype : r.requestType = .sign)
    (hdone : r.requestStatus = .done) :
    ∃ input signature, r = Coordinator.signDone { input, output := signature } ∧
      AssembledSignature n os input signature := by
  obtain ⟨n₁, e, t, o, hs, ho, hsub, -, -⟩ := step_of_seen hrun hr
  rcases hs.output_of_done ho hdone with ⟨a, out, hout, rfl⟩ | ⟨a, out, hout, rfl⟩
  · cases htype
  · have hmem := hsub _ hout
    obtain ⟨id, hid, hinput⟩ := (genuine_of_run hrun.of_noting).handled _ hmem
    rw [identitiesS, List.getElem?_map] at hid
    obtain ⟨x, hget, rfl⟩ := Option.map_eq_some_iff.mp hid
    obtain ⟨s, hstart, hsame, hputs⟩ := ((isolated_of_run hrun).signers a x hget).putOut
      (·.input) .startS (fun r _ m => (callS_keeps r m).1.1)
      (fun e s h => by cases e <;> cases h; rfl) (fun note s h => by cases note <;> cases h)
      (sent_of_handled hrun hmem)
    obtain ⟨n₂, e₂, t₂, o₂, hs₂, ho₂, hsub₂, -, -⟩ := step_of_seen hrun hstart
    obtain ⟨b, ⟨input, stage⟩, message, hstage, hhash, rfl⟩ := hs₂.signer_of_start ho₂
    obtain ⟨input', signature⟩ := out
    obtain rfl : input = input' := hsame.trans hinput.symm
    have houtput := List.mem_filterMap (f := Signer.outputOf).mpr ⟨_, hputs.output, rfl⟩
    rw [Signer.outputs_live] at houtput
    obtain ⟨-, ht, hcount, state, own, hnew, hcomplete⟩ := Signer.of_mem_outputs rfl houtput
    -- what it had taken by then are the first of its mail
    obtain ⟨hcount', hfirst⟩ := Signer.take_pushed_of_prefix hputs.order hcount
    exact ⟨input, signature, rfl, a, message, stage, state, own, hstart, hhash,
      computedStage_of_output hrun (hsub₂ _ hstage), hnew, ht, hcount', hfirst ▸ hcomplete,
      hputs.rooms⟩

end

end Node

namespace Sample

/-- A signing to its end, with Alice's message of either stage. -/
def wholeSigning : Scenario where
  wires := [fromAlice "s1@73ee5cd6c20e0c08"
      { sender := 1, receiver := none, body := offlineBodyText 1 },
    fromAlice "s1@73ee5cd6c20e0c08"
      { sender := 1, receiver := none, body := partialSigText { signer := 1, good := true } }]
  messages := [{ sender := 1, receiver := none, body := offlineBodyText 1 },
    { sender := 2, receiver := none, body := offlineBodyText 1 },
    { sender := 1, receiver := none, body := partialSigText { signer := 1, good := true } },
    { sender := 2, receiver := none, body := partialSigText { signer := 2, good := true } }]

/-- Its signature, as the client sees it. -/
def finishedSigning : CheckResultResponse :=
  { requestId := "s1", result := "0x01ff02ff00000001", requestType := .sign
    requestStatus := .done }

theorem assembledSignature_of_finishedSigning :
    ∃ os n, Run (noting Node.step Node.notesOf) anyStep (bobsNode wholeSigning shared) os n ∧
      .effect (.status finishedSigning) ∈ seen os ∧
        ∃ input signature,
          finishedSigning = Coordinator.signDone { input, output := signature } ∧
            Node.AssembledSignature n os input signature := by
  obtain ⟨os, n, hrun, hend⟩ := Run.ofTest (noting Node.step Node.notesOf) anyStep
    (bobsNode wholeSigning shared)
    [.request (.sign (signOf "s1" [.alice, .bob] "ff")), .mail allWell, .tickO 0 0,
      .mail allWell, arrives (fromAlice "s1@73ee5cd6c20e0c08"
        { sender := 1, receiver := none, body := offlineBodyText 1 }), .playO 0 0, .mail allWell,
      .startS 0, .mail allWell, arrives (fromAlice "s1@73ee5cd6c20e0c08"
        { sender := 1, receiver := none, body := partialSigText { signer := 1, good := true } }),
      .playS 0, .mail allWell]
    (fun r => reports finishedSigning (seen r.2)) (by decide +kernel) (admits_anyStep _ _)
  have hmem := mem_of_reports hend
  exact ⟨os, n, hrun, hmem, Node.assembledSignature_of_done hrun hmem rfl rfl⟩

end Sample

end MpcServer

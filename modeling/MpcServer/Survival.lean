import MpcServer.Actors.Copies
import MpcServer.Logging
import MpcServer.Refusals
import MpcServer.Retries
import MpcServer.RoomParameters

/-!
# What a remote party can stop

The check of an envelope unwraps the own index in the group of the room, a retry
counts its attempts, a player its messages. The first is safe while every stored
group lists the server's own key: a sign request that is refused late can save one
that does not, and from then on a message addressed to its room stops the server.
-/

namespace MpcServer

open Rust Rust.Method Machine

variable {C : Crates}

variable (C) in
/-- The own key is hexadecimal. A group reads back as it was written, a share is no
group. What serde read it can write. -/
structure PathLaws : Prop where
  ownKey : ∀ sk, (byteSlice (C.ownKey sk) 2 10).isOk = true
  publicKeyGroup : ∀ group blob, C.publicKeyGroup.write group = some blob →
    C.publicKeyGroup.read blob = some group
  shareAsGroup : ∀ share blob, C.encryptedStoredLocalShare.write share = some blob →
    C.publicKeyGroup.read blob = none
  wireMessage : ∀ text w, C.wireMessage.read text = some w →
    (C.wireMessage.write w).isSome = true
  msgKG : ∀ text m, C.msgKG.read text = some m → (C.msgKG.write m).isSome = true
  msgO : ∀ text m, C.msgO.read text = some m → (C.msgO.write m).isSome = true

/-! ## The counter of a player -/

namespace MpcPlayer

section
variable {I SM β ε ο : Type} [StateMachine SM β ε ο]

/-- There is room in the counter for the message, if it is to be counted. -/
def Counts (p : MpcPlayer I SM) (m : IncomingMessage (Msg β)) : Prop :=
  m.message.sender ≠ p.index → validReceiver p.index m.message.receiver = true →
    p.msgCount.toNat + 1 < 2 ^ 16

instance (p : MpcPlayer I SM) (m : IncomingMessage (Msg β)) : Decidable (p.Counts m) := by
  unfold Counts
  infer_instance

theorem handleIncoming_returns (m : IncomingMessage (Msg β)) :
    Returns (handleIncoming m : Call I SM β ε ο Unit) := by
  refine returns_bind returns_self fun p => returns_bind (returns_modify _) fun _ => ?_
  split
  · exact returns_pure _
  · exact returns_bind returns_self fun _ => returns_emit _

theorem maybeProceed_returns (codec : Serde (Msg β) String) (now : Nat) :
    Returns (maybeProceed codec now : Call I SM β ε ο Unit) := by
  have hsend : Returns (sendOutgoing codec : Call I SM β ε ο Unit) :=
    returns_bind returns_self fun _ => returns_bind (returns_modify _) fun _ => returns_emitAll _
  have htimer : Returns (refreshTimer now : Call I SM β ε ο Unit) :=
    returns_bind returns_self fun _ =>
      returns_ite (fun _ => returns_modify _) fun _ => returns_pure _
  have hproceed : Returns (proceedIfNeeded : Call I SM β ε ο Unit) := by
    refine returns_bind returns_self fun _ => returns_ite (fun _ => ?_) fun _ => returns_pure _
    refine returns_bind (returns_modify _) fun _ => ?_
    split
    · exact returns_pure _
    · exact returns_bind (returns_emit _) fun _ => returns_question _
  have hfinish : Returns (finishIfPossible : Call I SM β ε ο Unit) := by
    refine returns_bind returns_self fun _ => returns_ite (fun _ => ?_) fun _ => returns_pure _
    refine returns_bind (returns_modify _) fun _ => ?_
    split
    · exact returns_bind returns_self fun _ => returns_emit _
    · exact returns_bind (returns_emit _) fun _ => returns_question _
    · exact returns_pure _
  exact returns_bind hsend fun _ => returns_bind htimer fun _ => returns_bind hproceed fun _ =>
    returns_bind hsend fun _ => returns_bind htimer fun _ =>
    returns_bind (returns_attempt hfinish) fun _ => returns_pure _

theorem tick_returns (codec : Serde (Msg β) String) (now : Nat) :
    Returns (tick codec now : Call I SM β ε ο Unit) :=
  returns_bind returns_self fun _ => returns_ite
    (fun _ => returns_bind (returns_attempt (maybeProceed_returns codec now)) fun _ =>
      returns_pure _) fun _ => returns_pure _

/-- A player panics over its counter only. -/
theorem handle_returns {p : MpcPlayer I SM} {m : IncomingMessage (Msg β)} (h : p.Counts m)
    (checks : Bool) (codec : Serde (Msg β) String) (now : Nat) :
    Ends (handle checks codec now m : Call I SM β ε ο Unit) p fun r _ _ => isPanic r = false := by
  unfold handle
  refine .bind_ok (run_self p) ?_
  split
  · exact .of_run (run_pure () p) rfl
  split
  · rename_i hother hreceiver
    have hroom := h hother hreceiver
    have hcount : addU16 checks p.msgCount 1 = .ok (p.msgCount + 1) := by
      have hone : (1 : UInt16).toNat = 1 := rfl
      exact if_neg fun hover => absurd hover.2 (by omega)
    rw [hcount]
    refine .bind_ok (run_orPanic_ok _ p) (.bind_ok (run_modify _ p) ?_)
    refine returns_bind (handleIncoming_returns m) (fun _ => returns_bind
      (returns_attempt (maybeProceed_returns codec now)) fun r => ?_) _
    split
    · exact returns_pure _
    · exact returns_bind returns_self fun _ => returns_emit _
  · exact .of_run (run_pure () p) rfl

end

end MpcPlayer

namespace Signer

theorem started_returns : Returns (started : Call C Unit) := by
  refine returns_bind (returns_attempt (returns_bind returns_self fun _ =>
    returns_bind (returns_question _) fun _ => ?_)) fun _ => returns_pure _
  dsimp only
  split
  · exact returns_emit _
  · exact returns_pure _

theorem handle_returns (m : IncomingS C) (s : Signer C) :
    isPanic ((handle m).run s).1 = false := by
  rw [handle_run]
  split <;> rfl

end Signer

namespace Coordinator

/-! ## The groups in the tree -/

/-- Every group in the tree lists the key of the server it was saved at. -/
def ListsOwn (db : Tree C) : Prop :=
  ∀ key blob group, db key = some blob → C.publicKeyGroup.read blob = some group →
    group.ownPublicKey ∈ group.publicKeys

theorem ListsOwn.put {db : Tree C} (h : ListsOwn db) {key : String} {blob : C.Blob}
    (hblob : ∀ group, C.publicKeyGroup.read blob = some group →
      group.ownPublicKey ∈ group.publicKeys) : ListsOwn (FirstWrite.put db key blob) := by
  intro key' blob' group hentry hread
  rw [FirstWrite.put_apply] at hentry
  split at hentry
  · rcases Option.or_eq_some_iff.mp hentry with hold | ⟨-, hnew⟩
    · exact h key blob' group hold hread
    · cases hnew
      exact hblob group hread
  · exact h key' blob' group hentry hread

/-- With such a tree the check of an envelope does not miss the own index. -/
theorem examines_of_listsOwn {c : Coordinator C} (h : ListsOwn c.db) (amb : Ambient)
    (msg : Arrival) : c.Examines amb msg := by
  unfold Examines validSenderAndReceiver
  cases hid : extractGroupId msg.room with
  | error e => rfl
  | ok groupId =>
      dsimp only
      cases hget : retrieveGroup c.db amb groupId with
      | error e => rfl
      | ok group =>
          simp only [retrieveGroup, Tree.get, bind_eq_ok, context_eq_ok] at hget
          obtain ⟨blob, hblob, hread⟩ := hget
          have hlisted : group.ownPublicKey ∈ group.publicKeys := by
            split at hblob
            · exact h groupId blob group (context_eq_ok.mp hblob) hread
            · cases hblob
          have hi := PublicKeyGroup.getI_eq_ok.mpr ⟨hlisted, rfl⟩
          dsimp only
          cases group.getIndex msg.senderPublicKey with
          | none => rfl
          | some _ =>
              cases C.genericMessage.read msg.payload with
              | none => rfl
              | some m =>
                  dsimp only
                  cases m.receiver with
                  | none => rfl
                  | some receiver =>
                      rw [hi]
                      dsimp only
                      split <;> rfl

/-- A group that is not in the tree yet lists this server if the request has it saved. -/
def SavesOwn (c : Coordinator C) (ctx : Ctx) : Request → Prop
  | .keygen _ => True
  | .sign req => c.pkStr ∈ req.participantPublicKeys ∨ c.WritesNothing ctx (.sign req)

instance (c : Coordinator C) (ctx : Ctx) (req : Request) : Decidable (c.SavesOwn ctx req) :=
  match req with
  | .keygen _ => .isTrue trivial
  | .sign req => inferInstanceAs (Decidable (_ ∨ ∀ group ∈ c.groupToSave ctx req,
      (c.db group.groupId).isSome ∨ C.publicKeyGroup.write group = none ∨ ctx.casOk = false))

section
variable {c : Coordinator C} {ctx : Ctx} {db : Tree C} {written : Bool}

theorem ListsOwn.stores (laws : PathLaws C) (h : ListsOwn c.db) {group : PublicKeyGroup}
    (hs : Stores c.db ctx group db written)
    (hown : group.ownPublicKey ∈ group.publicKeys ∨ db = c.db) : ListsOwn db := by
  rcases hown with hown | rfl
  · cases hs with
    | written hwrite _ =>
        refine h.put fun g hread => ?_
        cases (laws.publicKeyGroup _ _ hwrite).symm.trans hread
        exact hown
    | lost _ => exact h
  · exact h

theorem ListsOwn.storesOwn (laws : PathLaws C) (h : ListsOwn c.db) {req : SignRequest}
    (hg : c.SavesOwn ctx (.sign req)) {share : StoredLocalShare C}
    {group subgroup : PublicKeyGroup} (hgroups : FindsGroups c req ctx share group subgroup)
    (hs : Stores c.db ctx subgroup db written) : ListsOwn db := by
  refine h.stores laws hs ?_
  rcases hg with hown | hnothing
  · obtain ⟨gid, -, rfl⟩ := PublicKeyGroup.new_eq_ok.mp hgroups.2.2
    exact .inl hown
  · exact .inr (congrArg Coordinator.db ((saved_eq_self_iff hgroups hs).mpr hnothing))

theorem ListsOwn.saveShare (laws : PathLaws C) (h : ListsOwn c.db)
    (out : ProtocolOutput KeygenRequest C.LocalKey) : ListsOwn (c.dbAfterOutputKG out ctx) := by
  unfold dbAfterOutputKG
  cases hsave : MpcServer.saveShare c.db ctx.toAmbient (c.shareOf out) with
  | error e => exact h
  | ok db =>
      simp only [MpcServer.saveShare, bind_eq_ok, context_eq_ok, Tree.compareAndSwap] at hsave
      obtain ⟨stored, -, blob, hwrite, hcas⟩ := hsave
      split at hcas
      · cases hcas
        refine h.put fun g hread => ?_
        cases (laws.shareAsGroup _ _ hwrite).symm.trans hread
      · cases hcas

end

/-- What comes from the broker does not stop a coordinator that manages it. -/
theorem incoming_returns {c : Coordinator C} {ctx : Ctx} {msg : Arrival}
    (h : c.ManagesIncoming ctx.toAmbient msg) :
    isPanic ((handleCoordinatorMessage (.incoming msg) ctx).run c).1 = false := by
  obtain ⟨r, f, hrun, hpanic, hf⟩ := handleIncoming_run msg ctx c
  have hreturns : isPanic ((handleIncoming msg ctx).run c).1 = false := by
    rw [hrun, hpanic]
    exact hf.stays_up h
  exact hreturns

theorem retry_returns {c : Coordinator C} {ctx : Ctx} {m : RetryMessage}
    (h : c.ManagesRetry ctx.toAmbient m) :
    isPanic ((handleCoordinatorMessage (.retry m) ctx).run c).1 = false := by
  obtain ⟨r, f, hrun, hpanic, hf⟩ := handleRetryMessage_run m ctx c
  rw [hrun, hpanic]
  exact hf.stays_up h

end Coordinator

namespace Node

/-! ## Steps that spare the server -/

/-- The handler of a request returns. -/
def RequestReturns (c : Coordinator C) (ctx : Ctx) : Mail C → Prop
  | .request req => isPanic (c.outcome ctx req) = false
  | _ => True

/-- The requests that are taken up do not panic themselves. -/
def RequestsReturn (n : Node C) : Event → Prop
  | .mail amb => ∀ m ∈ n.mailbox.head?, RequestReturns n.coordinator (n.ctx amb) m
  | _ => True

/-- A request has no group without this server saved. -/
def MailSavesOwn (c : Coordinator C) (ctx : Ctx) : Mail C → Prop
  | .request req => c.SavesOwn ctx req
  | _ => True

/-- No group without this server is saved, and no counter of a player is full. -/
def Spares (n : Node C) : Event → Prop
  | .mail amb => ∀ m ∈ n.mailbox.head?, MailSavesOwn n.coordinator (n.ctx amb) m
  | .playKG a _ => ∀ x ∈ n.playersKG[a]?, ∀ m ∈ x.mailbox.head?, x.state.Counts m
  | .playO a _ => ∀ x ∈ n.playersO[a]?, ∀ m ∈ x.mailbox.head?, x.state.Counts m
  | _ => True

/-- The requests return, and the step spares the server. -/
def Harmless (n : Node C) (e : Event) : Prop := RequestsReturn n e ∧ Spares n e

instance (c : Coordinator C) (ctx : Ctx) (m : Mail C) : Decidable (RequestReturns c ctx m) :=
  match m with
  | .request _ => inferInstanceAs (Decidable (_ = false))
  | .outgoing _ | .errorKG _ | .errorO _ | .outputKG .. | .outputO .. | .outputS .. => .isTrue trivial

instance (n : Node C) (e : Event) : Decidable (RequestsReturn n e) :=
  match e with
  | .mail _ => inferInstanceAs (Decidable (∀ m ∈ n.mailbox.head?, _))
  | .wire .. | .finished | .sendOne _ | .request _ | .fire _ | .retry _ | .tickKG .. | .tickO ..
  | .playKG .. | .playO .. | .startS _ | .playS _ => .isTrue trivial

instance (c : Coordinator C) (ctx : Ctx) (m : Mail C) : Decidable (MailSavesOwn c ctx m) :=
  match m with
  | .request req => inferInstanceAs (Decidable (c.SavesOwn ctx req))
  | .outgoing _ | .errorKG _ | .errorO _ | .outputKG .. | .outputO .. | .outputS .. => .isTrue trivial

instance (n : Node C) (e : Event) : Decidable (Spares n e) :=
  match e with
  | .mail _ => inferInstanceAs (Decidable (∀ m ∈ n.mailbox.head?, _))
  | .playKG a _ => inferInstanceAs (Decidable (∀ x ∈ n.playersKG[a]?, ∀ m ∈ x.mailbox.head?, _))
  | .playO a _ => inferInstanceAs (Decidable (∀ x ∈ n.playersO[a]?, ∀ m ∈ x.mailbox.head?, _))
  | .wire .. | .finished | .sendOne _ | .request _ | .fire _ | .retry _ | .tickKG .. | .tickO ..
  | .startS _ | .playS _ => .isTrue trivial

instance (n : Node C) (e : Event) : Decidable (Harmless n e) :=
  inferInstanceAs (Decidable (_ ∧ _))

section
variable {os o : List (Obs C)} {n t : Node C} {e : Event}

/-! ### Attempts -/

/-- What is on the clock was not tried more than 33 times. -/
def Timely (n : Node C) : Prop :=
  ∀ m, m ∈ n.timers ∨ m ∈ n.notified → m.attempts.toNat ≤ 33

theorem attempts_onClock {f : Fate} {m : RetryMessage} (h : m ∈ onClock f) :
    m.attempts.toNat ≤ 33 := by
  cases f with
  | retried m' =>
      simp only [onClock] at h
      split at h
      · cases h
      · rename_i hfew
        obtain rfl := List.mem_singleton.mp h
        simpa [UInt16.lt_iff_toNat_lt] using hfew
  | _ => cases h

theorem Timely.settle (h : Timely n) (f : Fate) : Timely (n.settle f) := by
  intro m hm
  have hnotified : (n.settle f).notified = n.notified := by simp [Node.settle]
  rw [settle_timers, hnotified] at hm
  rcases hm with hm | hm
  · exact (List.mem_append.mp hm).elim (fun hm => h m (.inl hm)) attempts_onClock
  · exact h m (.inr hm)

theorem Timely.step (h : Timely n) (hs : Steps n e t o) : Timely t := by
  cases hs with
  | @received _ amb w _ _ =>
      obtain ⟨f, -, heq⟩ := receive_fate n w amb
      have hnext : Timely { n with nextOrigin := n.nextOrigin + 1 } := h
      rw [heq]
      exact hnext.settle f
  | @tookMail amb m rest _ _ =>
      have hrest : Timely { n with mailbox := rest } := h
      cases hm : reported m with
      | some r =>
          rw [takeMail_reported n hm]
          exact hrest.settle _
      | none =>
          obtain ⟨r, c, es, hh, heq⟩ := takeMail_handled n hm rest amb
          rw [heq]
          intro m hm
          simp only [applyEffects_timers, scheduled_of_quiet hh.quiet, List.append_nil,
            applyEffects_notified] at hm
          exact h m hm
  | @fired i m hget =>
      intro m' hm'
      exact h m' (mem_of_fired hget hm')
  | @tookRetry amb m rest _ hbox =>
      obtain ⟨f, -, heq⟩ := takeRetry_fate n m rest amb
      have hrest : Timely { n with notified := rest } := by
        intro m' hm'
        refine h m' (hm'.imp_right fun hm' => ?_)
        rw [hbox]
        exact List.mem_cons_of_mem _ hm'
      rw [heq]
      exact hrest.settle f
  | _ => exact h

theorem addU16_isOk_of_le {checks : Bool} {x : UInt16} (h : x.toNat ≤ 33) :
    (addU16 checks x 1).isOk = true := by
  have hone : (1 : UInt16).toNat = 1 := rfl
  rw [addU16_of_lt (by omega)]
  rfl

/-! ### Groups -/

theorem listsOwn_step (laws : PathLaws C) (h : Coordinator.ListsOwn n.coordinator.db)
    (hg : Spares n e) (hs : Steps n e t o) : Coordinator.ListsOwn t.coordinator.db := by
  cases hs.turns with
  | idle hc _ => rwa [hc]
  | @handled amb m rest _ _ _ he hbox hh hc _ _ _ =>
      subst he
      -- only a mail that saves a group puts a new one in the tree
      have hmail : MailSavesOwn n.coordinator (n.ctx amb) m := hg m (by rw [hbox]; rfl)
      rw [hc]
      cases hh with
      | keygenRequest hk =>
          cases hk with
          | refused _ => exact h
          | began hbegins hstores =>
              exact h.stores laws hstores (.inl (PublicKeyGroup.getI_eq_ok.mp hbegins.2.1).1)
      | signRequest hk =>
          cases hk with
          | refused _ => exact h
          | mismatched hgroups hstores _ => exact h.storesOwn laws hmail hgroups hstores
          | failed hgroups hstores _ _ => exact h.storesOwn laws hmail hgroups hstores
          | began hgroups hstores _ _ => exact h.storesOwn laws hmail hgroups hstores
      | outgoing _ => exact h
      | outputKG hk =>
          cases hk with
          | panicked _ => exact h
          | done _ => exact h.saveShare laws _
      | outputO hk => cases hk <;> exact h
      | outputS => exact h

/-! ### Nobody goes down -/

/-- The stream has ended, or a send has panicked. -/
def TakesDown : Obs C → Prop
  | .finished => True
  | .attempted _ _ up => up = false
  | _ => False

/-- Everybody is up, but for a coordinator that its stream or its sink took down. -/
structure StaysUp (os : List (Obs C)) (n : Node C) : Prop where
  alive : (∀ x ∈ os, ¬ TakesDown x) → n.alive = true
  playersKG : ∀ x ∈ n.playersKG, x.alive = true
  playersO : ∀ x ∈ n.playersO, x.alive = true
  signers : ∀ x ∈ n.signers, x.alive = true

theorem Up.staysUp (h : Up n) (os : List (Obs C)) : StaysUp os n :=
  ⟨fun _ => h.alive, h.playersKG, h.playersO, h.signers⟩

theorem StaysUp.perform (h : StaysUp os n) {m : Coordinator.Call C String Unit}
    (hm : isPanic (m.run n.coordinator).1 = false) : Up (Node.perform n m).1 := by
  have hup : Up { n with
      coordinator := (m.run n.coordinator).2.1
      alive := !isPanic (m.run n.coordinator).1 } := by
    rw [hm]
    exact ⟨rfl, h.playersKG, h.playersO, h.signers⟩
  exact hup.applyEffects _

theorem isPanic_attempt {h : Coordinator.Call C String Unit} {c : Coordinator C} :
    isPanic ((attempt (ε := String) h >>= fun _ => pure () : Coordinator.Call C String Unit).run
      c).1 = isPanic (h.run c).1 := by
  simp only [run_bind, run_attempt]
  rcases h.run c with ⟨(e | p) | u, c', os⟩ <;> rfl

/-- The mail of a coordinator does not stop it. -/
theorem handleMail_returns {c : Coordinator C} {ctx : Ctx} {m : Mail C}
    (hreq : RequestReturns c ctx m) (hkeys : ∀ a out, m = .outputKG a out →
      (PublicKeyGroup.groupIdOf out.input.participantPublicKeys).isOk = true) :
    isPanic ((handleMail ctx m).run c).1 = false := by
  cases m with
  | request req =>
      cases req with
      | keygen req => exact isPanic_attempt.trans hreq
      | sign req => exact isPanic_attempt.trans hreq
  | outgoing msg =>
      obtain ⟨os, hrun, -⟩ := Coordinator.handleOutgoing_run msg ctx c
      exact congrArg (fun r => isPanic r.1) hrun
  | errorKG error =>
      exact congrArg (fun r => isPanic r.1)
        (Coordinator.handleProtocolError_run error.error error.message.wireMessage ctx c)
  | errorO error =>
      exact congrArg (fun r => isPanic r.1)
        (Coordinator.handleProtocolError_run error.error error.message.wireMessage ctx c)
  | outputKG a out =>
      have hends : Coordinator.KeygenOutput c out ctx _ _ _ :=
        Coordinator.handleProtocolOutputKG_cases out ctx c
      change isPanic ((Coordinator.handleProtocolOutputKG out ctx).run c).1 = false
      generalize (Coordinator.handleProtocolOutputKG out ctx).run c = r at hends ⊢
      obtain ⟨r, c', os⟩ := r
      cases hends with
      | panicked herror =>
          -- the keys were sliceable when the session began
          have hok := hkeys a out rfl
          rw [PublicKeyGroup.new_eq_error.mp herror] at hok
          cases hok
      | done _ => rfl
  | outputO a out =>
      have hends : Coordinator.OfflineOutput c out ctx _ _ _ :=
        Coordinator.handleProtocolOutputO_cases out ctx c
      change isPanic ((Coordinator.handleProtocolOutputO out ctx).run c).1 = false
      generalize (Coordinator.handleProtocolOutputO out ctx).run c = r at hends ⊢
      obtain ⟨r, c', os⟩ := r
      cases hends <;> rfl
  | outputS a out => rfl

theorem callKG_returns {p : PlayerKG C} {msg : Option (IncomingKG C)}
    (h : ∀ m, msg = some m → p.Counts m) (now : Nat) : isPanic (callKG p now msg).1 = false := by
  cases msg with
  | none => exact MpcPlayer.tick_returns C.msgKG now p
  | some m => exact MpcPlayer.handle_returns (h m rfl) C.overflowChecks C.msgKG now

theorem callO_returns {p : PlayerO C} {msg : Option (IncomingO C)}
    (h : ∀ m, msg = some m → p.Counts m) (now : Nat) : isPanic (callO p now msg).1 = false := by
  cases msg with
  | none => exact MpcPlayer.tick_returns C.msgO now p
  | some m => exact MpcPlayer.handle_returns (h m rfl) C.overflowChecks C.msgO now

theorem callS_returns (s : Signer C) (msg : Option (IncomingS C)) :
    isPanic (callS s msg).1 = false := by
  cases msg with
  | none => exact Signer.started_returns s
  | some m => exact Signer.handle_returns m s

/-- The node is sound: everybody stays up, and nothing is in store that could stop the
coordinator. -/
structure Sound (os : List (Obs C)) (n : Node C) : Prop where
  up : StaysUp os n
  ownKey : (byteSlice n.coordinator.pkStr 2 10).isOk = true
  groups : Coordinator.ListsOwn n.coordinator.db
  timely : Timely n

theorem Sound.managesIncoming (h : Sound os n) (amb : Ambient) (msg : Arrival) :
    n.coordinator.ManagesIncoming amb msg :=
  ⟨h.ownKey, Coordinator.examines_of_listsOwn h.groups amb msg⟩

theorem Sound.managesRetry (h : Sound os n) (amb : Ambient) {m : RetryMessage}
    (hm : m ∈ n.timers ∨ m ∈ n.notified) : n.coordinator.ManagesRetry amb m :=
  ⟨addU16_isOk_of_le (h.timely m hm),
    fun _ => Coordinator.examines_of_listsOwn h.groups amb m.message⟩

theorem Sound.up_step (h : Sound os n) (hg : Harmless n e) (hs : Steps n e t o)
    (hkeys : ∀ a out, .outputKG a out ∈ n.mailbox →
      (PublicKeyGroup.groupIdOf out.input.participantPublicKeys).isOk = true) :
    StaysUp (os ++ o) t := by
  have hup := h.up
  have hbefore (hnone : ∀ x ∈ os ++ o, ¬ TakesDown x) : n.alive = true :=
    hup.alive fun x hx => hnone x (List.mem_append_left _ hx)
  cases hs with
  | skipped _ => exact ⟨hbefore, hup.playersKG, hup.playersO, hup.signers⟩
  | finished _ =>
      exact ⟨fun hnone => absurd trivial (hnone .finished (by simp)), hup.playersKG, hup.playersO,
        hup.signers⟩
  | @attempted _ m rest sink up text _ _ _ =>
      refine ⟨fun hnone => ?_, hup.playersKG, hup.playersO, hup.signers⟩
      have hup : ¬ up = false := hnone (.attempted m text up) (by simp)
      simpa using hup
  | lost _ => exact ⟨hbefore, hup.playersKG, hup.playersO, hup.signers⟩
  | queued _ => exact ⟨hbefore, hup.playersKG, hup.playersO, hup.signers⟩
  | @received item amb w _ _ =>
      have hnext : StaysUp os { n with nextOrigin := n.nextOrigin + 1 } :=
        ⟨hup.alive, hup.playersKG, hup.playersO, hup.signers⟩
      exact (hnext.perform (Coordinator.incoming_returns (h.managesIncoming _ _))).staysUp _
  | @tookMail amb m rest _ hbox =>
      have hrest : StaysUp os { n with mailbox := rest } :=
        ⟨hup.alive, hup.playersKG, hup.playersO, hup.signers⟩
      refine (hrest.perform (handleMail_returns (hg.1 m (by rw [hbox]; rfl)) ?_)).staysUp _
      exact fun a out hout => hkeys a out (by rw [hbox, hout]; exact List.mem_cons_self)
  | fired _ => exact ⟨hbefore, hup.playersKG, hup.playersO, hup.signers⟩
  | @tookRetry amb m rest _ hbox =>
      have hrest : StaysUp os { n with notified := rest } :=
        ⟨hup.alive, hup.playersKG, hup.playersO, hup.signers⟩
      have hm : m ∈ n.notified := by
        rw [hbox]
        exact List.mem_cons_self
      exact (hrest.perform (Coordinator.retry_returns (h.managesRetry _ (.inr hm)))).staysUp _
  | @ranKG _ a now x rest msg hget _ hbox he =>
      -- a player goes down on a full counter only, which `Harmless` excludes
      have hcounts : ∀ m, msg = some m → x.state.Counts m := by
        rintro m rfl
        subst he
        exact hg.2 x hget m (by rw [hbox]; rfl)
      refine ⟨hbefore, forall_mem_set hup.playersKG ?_, hup.playersO, hup.signers⟩
      simp [Actor.after, callKG_returns hcounts]
  | @ranO _ a now x rest msg hget _ hbox he =>
      have hcounts : ∀ m, msg = some m → x.state.Counts m := by
        rintro m rfl
        subst he
        exact hg.2 x hget m (by rw [hbox]; rfl)
      refine ⟨hbefore, hup.playersKG, forall_mem_set hup.playersO ?_, hup.signers⟩
      simp [Actor.after, callO_returns hcounts]
  | @ranS _ a x rest msg hget _ _ _ _ =>
      refine ⟨hbefore, hup.playersKG, hup.playersO, forall_mem_set hup.signers ?_⟩
      simp [Actor.after, callS_returns]

theorem Sound.step (laws : PathLaws C) (h : Sound os n) (hg : Harmless n e) (hs : Steps n e t o)
    (hkeys : ∀ a out, .outputKG a out ∈ n.mailbox →
      (PublicKeyGroup.groupIdOf out.input.participantPublicKeys).isOk = true) :
    Sound (os ++ o) t where
  up := h.up_step hg hs hkeys
  ownKey := by
    rw [hs.continues.pkStr]
    exact h.ownKey
  groups := listsOwn_step laws h.groups hg.2 hs
  timely := h.timely.step hs

end

/-! ## Runs -/

section
variable {guard : Node C → Event → Prop} {sk : C.SecretKey} {db : Tree C} {os : List (Obs C)}
  {n : Node C}

/-- The output of a keygen player has a group id. -/
theorem groupId_of_output (hrun : Run step guard (init sk db) os n) {a : Addr}
    {out : ProtocolOutput KeygenRequest C.LocalKey} (hout : .outputKG a out ∈ n.mailbox) :
    (PublicKeyGroup.groupIdOf out.input.participantPublicKeys).isOk = true := by
  obtain ⟨i, hi, hin⟩ := (genuine_of_run hrun).waiting _ hout
  have hsession : (i.room, .keygen i.input) ∈ n.registered :=
    List.mem_append_left _ (List.mem_map_of_mem (List.mem_of_getElem? hi))
  obtain ⟨gid, hgid, -⟩ :=
    roomOf_registered (hrun.weaken fun _ _ _ => trivial) _ hsession
  rw [hin]
  exact congrArg Except.isOk hgid

theorem sound_of_run (laws : PathLaws C) (hdb : Coordinator.ListsOwn db)
    (hrun : Run step Harmless (init sk db) os n) : Sound os n := by
  refine hrun.invariant Sound ?_ fun hr h hg hs => ?_
  · exact ⟨(Up.init sk db).staysUp _, laws.ownKey sk, hdb, fun m hm => by rcases hm with hm | hm <;> cases hm⟩
  · exact h.step laws hg (step_cases hs) fun a out hout => groupId_of_output hr hout

/-- What a runner is handed is what the payload of its envelope reads as. -/
theorem delivers_of_run (hrun : Run step guard (init sk db) os n) {x : Obs C} (hx : x ∈ os)
    {a : Arrival} (ha : handedCopy x = some a) : Delivers a x := by
  have hlaws : CopyLaws guard (init sk db) (fun _ _ _ => True) (fun _ _ _ => True) :=
    ⟨fun _ _ _ _ => trivial, fun _ _ _ _ => trivial, fun _ _ _ _ => trivial,
      fun _ _ _ _ _ _ => trivial⟩
  exact ((known_of_run hlaws hrun x hx).delivered a ha).1

theorem inboxKG_reads (hrun : Run step guard (init sk db) os n)
    {x : Actor (PlayerKG C) (IncomingKG C)} (hx : x ∈ n.playersKG) {m : IncomingKG C}
    (hm : m ∈ x.mailbox) : C.msgKG.read m.wireMessage.payload = some m.message := by
  obtain ⟨a, ha⟩ := (caused_of_run hrun).inboxKG x hx m hm
  have hdelivers := delivers_of_run hrun ha rfl
  obtain ⟨room, copy, message⟩ := m
  change Delivers copy _ at hdelivers
  cases hdelivers with
  | keygen hread => exact hread

theorem inboxO_reads (hrun : Run step guard (init sk db) os n)
    {x : Actor (PlayerO C) (IncomingO C)} (hx : x ∈ n.playersO) {m : IncomingO C}
    (hm : m ∈ x.mailbox) : C.msgO.read m.wireMessage.payload = some m.message := by
  obtain ⟨a, ha⟩ := (caused_of_run hrun).inboxO x hx m hm
  have hdelivers := delivers_of_run hrun ha rfl
  obtain ⟨room, copy, message⟩ := m
  change Delivers copy _ at hdelivers
  cases hdelivers with
  | offline hread => exact hread

/-- An envelope that arrives was read from a text. -/
theorem read_of_arriving {item : Except String String} {w : WireMessage}
    (h : n.arriving item = some w) : ∃ text, C.wireMessage.read text = some w := by
  cases item with
  | error e => cases h
  | ok text =>
      unfold arriving at h
      split at h
      · rename_i w' hparsed
        split at h
        · cases h
          exact ⟨text, (doParseSigned_eq_ok.mp (Option.some.inj hparsed)).1⟩
        · cases h
      · cases h

/-- Nobody has gone down, but for a coordinator that its stream or its sink took down, and
no handler that is called with what may arrive or is waiting will, its log lines included:
but for a player whose counter is full. -/
structure Survives (L : LogCrates C) (os : List (Obs C)) (n : Node C) : Prop where
  up : StaysUp os n
  incoming : ∀ item w amb, n.arriving item = some w →
    isPanic ((Coordinator.handleEnvelopeLogged L (n.ctx amb) (.inl ⟨w, n.nextOrigin⟩)).run
      n.coordinator).1 = false
  retry : ∀ m amb, m ∈ n.timers ∨ m ∈ n.notified →
    isPanic ((Coordinator.handleEnvelopeLogged L (n.ctx amb) (.inr m)).run
      n.coordinator).1 = false
  keygen : ∀ x ∈ n.playersKG, ∀ m ∈ x.mailbox, x.state.Counts m → ∀ now,
    isPanic ((MpcPlayer.handleLogged L C.overflowChecks C.msgKG now m).run x.state).1 = false
  offline : ∀ x ∈ n.playersO, ∀ m ∈ x.mailbox, x.state.Counts m → ∀ now,
    isPanic ((MpcPlayer.handleLogged L C.overflowChecks C.msgO now m).run x.state).1 = false

/-- **Nobody goes down for a message.** Let every group in the store list this server's
key, and in every step let the requests return, have no other group saved, and no
counter of a player be full. Then, whatever arrives from the broker and in whatever
order, nobody goes down but for a coordinator that its stream or its sink took down, and
nothing that arrives or waits makes a handler panic. -/
theorem survives_of_run (laws : PathLaws C) {L : LogCrates C} (hlog : L.Laws)
    (hdb : Coordinator.ListsOwn db) (hrun : Run step Harmless (init sk db) os n) :
    Survives L os n := by
  have hsound := sound_of_run laws hdb hrun
  refine ⟨hsound.up, fun item w amb harr => ?_, fun m amb hm => ?_, fun x hx m hm hcounts now => ?_,
    fun x hx m hm hcounts now => ?_⟩
  · obtain ⟨text, hread⟩ := read_of_arriving harr
    rw [Coordinator.handleEnvelopeLogged_eq hlog]
    · exact Coordinator.incoming_returns (hsound.managesIncoming _ _)
    · rintro msg ⟨⟩
      exact laws.wireMessage text w hread
  · rw [Coordinator.handleEnvelopeLogged_eq hlog _ (by rintro msg ⟨⟩)]
    exact Coordinator.retry_returns (hsound.managesRetry _ hm)
  · rw [MpcPlayer.handleLogged_eq hlog _ _ (laws.msgKG _ _ (inboxKG_reads hrun hx hm))]
    exact MpcPlayer.handle_returns hcounts C.overflowChecks C.msgKG now
  · rw [MpcPlayer.handleLogged_eq hlog _ _ (laws.msgO _ _ (inboxO_reads hrun hx hm))]
    exact MpcPlayer.handle_returns hcounts C.overflowChecks C.msgO now

end

end Node

namespace Sample

theorem codec_write {α : Type} [DecidableEq α] {text : α → String} {known : List α} {s : String}
    {a : α} (h : (codec text known).read s = some a) :
    ((codec text known).write a).isSome = true := by
  have hknown : a ∈ known := List.mem_of_find?_eq_some h
  simp [codec, hknown]

theorem typedCodec_write {β : Type} {sc : Scenario} {text : β → String} {bodies : List β}
    {s : String} {m : Msg β} (h : (typedCodec sc text bodies).read s = some m) :
    ((typedCodec sc text bodies).write m).isSome = true := by
  obtain ⟨g, hg, hm⟩ := Option.bind_eq_some_iff.mp h
  obtain ⟨body, hbody, rfl⟩ := Option.map_eq_some_iff.mp hm
  have hname : text body = g.body := by simpa using List.find?_some hbody
  have hsame : (⟨g.sender, g.receiver, text body⟩ : GenericProtocolMessage String) = g := by
    rw [hname]
  show ((genericCodec sc).write ⟨g.sender, g.receiver, text body⟩).isSome = true
  rw [hsame]
  exact codec_write hg

theorem pathLaws (sc : Scenario) : PathLaws (crates sc) where
  ownKey p := by
    obtain ⟨piece, hpiece, -⟩ := p.byteSlice_keyText
    show (byteSlice (Hex.encode p.keyBytes) 2 10).isOk = true
    rw [p.encode_keyBytes, hpiece]
    rfl
  publicKeyGroup := by
    rintro group blob h
    cases h
    rfl
  shareAsGroup := by
    rintro share blob h
    cases h
    rfl
  wireMessage _ _ := codec_write
  msgKG _ _ := typedCodec_write
  msgO _ _ := typedCodec_write

/-- The keygen of Alice and Bob, until Bob's player has Alice's message. -/
theorem survives_keygen :
    ∃ os n, Run Node.step Node.Harmless (bobsNode keygen nothing) os n ∧
      n.playersKG.map (·.state.msgCount) = [1] ∧ n.Survives (logCrates keygen) os := by
  obtain ⟨os, n, hrun, hend⟩ := Run.ofGuardedTest Node.step Node.Harmless (bobsNode keygen nothing)
    runKeygen (fun r => decide (r.1.playersKG.map (·.state.msgCount) = [1])) (by decide +kernel)
  exact ⟨os, n, hrun, of_decide_eq_true hend, Node.survives_of_run (pathLaws keygen)
    (logLaws keygen) (by rintro key blob group ⟨⟩) hrun⟩

/-- A message of Alice's to the first party of a group of her own. -/
def strayMessage : WireMessage :=
  fromAlice "c20e0c08@73ee5cd6" { sender := 1, receiver := some 1, body := keygenBodyText 1 }

/-- A message for the group that a refused request has left behind. -/
def stray : Scenario where
  wires := [strayMessage]
  messages := [{ sender := 1, receiver := some 1, body := keygenBodyText 1 }]

/-- A signature by Alice alone is refused without a panic, her group stays behind, and
her next message stops Bob's coordinator. -/
theorem stopped_by_strayMessage :
    ∃ os n t o, Run Node.step Node.RequestsReturn (bobsNode stray shared) os n ∧
      n.alive = true ∧ n.step (arrives strayMessage) = some (t, o) ∧ t.alive = false := by
  obtain ⟨os, n, hrun, hend⟩ := Run.ofGuardedTest Node.step Node.RequestsReturn
    (bobsNode stray shared) [.request (.sign (signOf "s1" [.alice] "0a")), .mail allWell]
    (fun r => r.1.alive && (r.1.step (arrives strayMessage)).any fun r' => !r'.1.alive)
    (by decide +kernel)
  rw [Bool.and_eq_true] at hend
  obtain ⟨⟨t, o⟩, hstep, hdown⟩ := (Option.any_eq_true _ _).mp hend.2
  exact ⟨os, n, t, o, hrun, hend.1, hstep, by simpa using hdown⟩

end Sample

end MpcServer

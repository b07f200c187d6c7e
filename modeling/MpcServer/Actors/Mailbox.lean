import MpcServer.Actors.Identities

/-!
# Requests become runners

The coordinator's mailbox is a queue: what a step takes up stood at its head
and what it adds goes to its end. A request enters it from outside only, and
starts at most one player when it is taken up.
-/

namespace MpcServer

open Rust Rust.Method Machine

variable {C : Crates}

namespace Node

/-! ## The mailbox -/

/-- The mail that a step takes up. -/
def taken : Obs C → Option (Mail C)
  | .handled m => some m
  | _ => none

/-- The request in a mail. -/
def requestOf : Mail C → Option Request
  | .request req => some req
  | _ => none

/-- The requests that wait in the mailbox. -/
def requests (n : Node C) : List Request := n.mailbox.filterMap requestOf

theorem taken_perform (n : Node C) (h : Coordinator.Call C String Unit) :
    (perform n h).2.filterMap taken = [] := by
  refine List.filterMap_eq_nil_iff.mpr fun x hx => ?_
  obtain ⟨e, -, rfl⟩ := List.mem_map.mp hx
  rfl

section
variable {I β ε ο : Type} {x : Obs C}

theorem taken_failures (hx : taken x = none) (sends : List (PlayerSend I β ε ο)) :
    (sends.filterMap (failureOf x)).filterMap taken = [] := by
  refine List.filterMap_eq_nil_iff.mpr fun y hy => ?_
  obtain rfl := eq_of_mem_failures hy
  exact hx

theorem taken_failuresS (hx : taken x = none) (sends : List (SignerSend C)) :
    (sends.filterMap (failureOfS x)).filterMap taken = [] := by
  refine List.filterMap_eq_nil_iff.mpr fun y hy => ?_
  obtain rfl := eq_of_mem_failuresS hy
  exact hx

end

/-- What a step adds to the mailbox: mail of the runners, or the request that
came from outside. -/
def Adds (n : Node C) (e : Event) (added : List (Mail C)) : Prop :=
  (∀ m ∈ added, requestOf m = none) ∨
    ∃ req, e = .request req ∧ n.alive = true ∧ added = [.request req]

theorem Steps.mailbox {n t : Node C} {e : Event} {o : List (Obs C)} (h : Steps n e t o) :
    ∃ kept added, n.mailbox = o.filterMap taken ++ kept ∧ t.mailbox = kept ++ added ∧
      Adds n e added := by
  have hnothing : Adds n e [] := .inl fun _ h => by cases h
  have hstill : o.filterMap taken = [] → t.mailbox = n.mailbox →
      ∃ kept added, n.mailbox = o.filterMap taken ++ kept ∧ t.mailbox = kept ++ added ∧
        Adds n e added := by
    intro ho ht
    exact ⟨n.mailbox, [], by rw [ho, List.nil_append], by rw [ht, List.append_nil], hnothing⟩
  cases h with
  | skipped _ => exact hstill rfl rfl
  | lost _ => exact hstill rfl rfl
  | finished _ => exact hstill rfl rfl
  | attempted _ _ _ => exact hstill rfl rfl
  | @queued req halive => exact ⟨n.mailbox, _, rfl, rfl, .inr ⟨req, rfl, halive, rfl⟩⟩
  | received _ _ =>
      refine hstill ?_ (by simp [receive])
      rw [receive, List.filterMap_cons_none rfl]
      exact taken_perform _ _
  | @tookMail _ m rest _ hbox =>
      refine ⟨rest, [], ?_, by simp [takeMail], hnothing⟩
      -- the handled mail is noted first, and it is the one taken off
      have hhead : taken (.handled m) = some m := rfl
      rw [takeMail, List.filterMap_cons_some hhead, taken_perform]
      exact hbox
  | fired _ => exact hstill rfl rfl
  | tookRetry _ _ => exact hstill (taken_perform _ _) (by simp [takeRetry])
  | ranKG msg _ _ _ _ =>
      refine ⟨n.mailbox, _, ?_, rfl, .inl fun m hm => ?_⟩
      · rw [afterKG, taken_failures rfl, List.nil_append]
      · obtain ⟨s, -, hs⟩ := List.mem_filterMap.mp hm
        cases s <;> cases hs <;> rfl
  | ranO msg _ _ _ _ =>
      refine ⟨n.mailbox, _, ?_, rfl, .inl fun m hm => ?_⟩
      · rw [afterO, taken_failures rfl, List.nil_append]
      · obtain ⟨s, -, hs⟩ := List.mem_filterMap.mp hm
        cases s <;> cases hs <;> rfl
  | ranS msg _ _ _ _ _ =>
      refine ⟨n.mailbox, _, ?_, rfl, .inl fun m hm => ?_⟩
      · rw [afterS, taken_failuresS rfl, List.nil_append]
      · obtain ⟨s, -, hs⟩ := List.mem_filterMap.mp hm
        cases s <;> cases hs <;> rfl

/-! ## Players -/

/-- The ids of the requests whose players were started. -/
def startedIds (n : Node C) : List String :=
  n.identitiesKG.map (·.input.requestId) ++ n.identitiesO.map (·.input.inner.requestId)

/-- The ids of the players that an output starts. -/
def startsFor (o : List (Obs C)) : List String :=
  (o.filterMap startedKG).map (·.input.requestId) ++
    (o.filterMap startedO).map (·.input.inner.requestId)

theorem Steps.count_startedIds {n t : Node C} {e : Event} {o : List (Obs C)} (h : Steps n e t o)
    (x : String) : t.startedIds.count x = n.startedIds.count x + (startsFor o).count x := by
  simp only [startedIds, startsFor, h.grows.keygen, h.grows.offline, List.map_append,
    List.count_append]
  omega

theorem startsFor_nil {o : List (Obs C)} (h : ∀ x ∈ o, StartsNobody x) : startsFor o = [] := by
  rw [startsFor, startedKG_nil h, startedO_nil h]
  rfl

/-- A player is started for a request that is taken up, and for one only. -/
theorem Steps.startsFor_le {n t : Node C} {e : Event} {o : List (Obs C)} (h : Steps n e t o)
    (x : String) : (startsFor o).count x ≤
      (((o.filterMap taken).filterMap requestOf).map Request.requestId).count x := by
  have hnone : startsFor o = [] → (startsFor o).count x ≤
      (((o.filterMap taken).filterMap requestOf).map Request.requestId).count x := by
    intro ho
    rw [ho]
    exact Nat.zero_le _
  cases h.turns with
  | idle _ ho => exact hnone (startsFor_nil fun y hy => startsNobody_of_idle (ho y hy))
  | handled _ _ hh _ _ _ ho =>
      cases hh with
      | keygenRequest hk =>
          cases hk with
          | refused _ => exact hnone (by rw [ho]; rfl)
          | began _ _ => rw [ho]; exact Nat.le_refl _
      | signRequest hk =>
          cases hk with
          | began _ _ _ _ => rw [ho]; exact Nat.le_refl _
          | _ => exact hnone (by rw [ho]; rfl)
      | outgoing hes =>
          refine hnone ?_
          rw [ho]
          exact startsFor_nil
            (List.forall_mem_cons.mpr ⟨⟨rfl, rfl, rfl⟩, startsNobody_of_sends hes⟩)
      | outputKG hk => cases hk <;> exact hnone (by rw [ho]; rfl)
      | outputO hk => cases hk <;> exact hnone (by rw [ho]; rfl)
      | outputS => exact hnone (by rw [ho]; rfl)

/-! ## Conservation -/

/-- How often a request of an id waits in the mailbox or has started a player. -/
def demand (n : Node C) (x : String) : Nat :=
  (n.requests.map Request.requestId).count x + n.startedIds.count x

theorem Steps.demand_le {n t : Node C} {e : Event} {o : List (Obs C)} (h : Steps n e t o)
    (he : ∀ req, e ≠ .request req) (x : String) : t.demand x ≤ n.demand x := by
  obtain ⟨kept, added, hn, ht, hadd⟩ := h.mailbox
  have hadded : added.filterMap requestOf = [] := by
    rcases hadd with hadd | ⟨req, hreq, -⟩
    · exact List.filterMap_eq_nil_iff.mpr hadd
    · exact absurd hreq (he req)
  have hcount := h.count_startedIds x
  have hstart := h.startsFor_le x
  simp only [demand, requests, hn, ht, List.filterMap_append, List.map_append, List.count_append,
    hadded, List.map_nil, List.count_nil]
  omega

theorem Steps.demand_request_le {n t : Node C} {req : Request} {o : List (Obs C)}
    (h : Steps n (.request req) t o) (x : String) :
    t.demand x ≤ n.demand x + [req.requestId].count x := by
  obtain ⟨-, ⟨-, rfl⟩ | ⟨-, rfl⟩⟩ := h.request
  · exact Nat.le_add_right _ _
  · simp only [demand, requests, startedIds, identitiesKG, identitiesO, List.filterMap_append,
      List.map_append, List.count_append]
    simp [requestOf]
    omega

end Node

end MpcServer

import MpcServer.Actors.Node

/-!
# Pools of actors

The actors of one kind, and nothing else: one is started, one is posted a
message, one runs a call. What becomes of an actor depends on its own start,
its own messages and its own calls, however the moves of the others fall
between them.
-/

namespace MpcServer

open Rust Machine

/-- What the actors of a kind have in common: how a call ends, with the
message it takes if it takes one, and whether an actor is up as soon as it is
there. `κ` is what a call is given beside the message. -/
structure Role (σ μ κ ω ε : Type) where
  call : σ → κ → Option μ → Except (Stop ε) Unit × σ × List ω
  ready : Bool

namespace Role

variable {σ μ κ ω ε : Type}

/-- A move of a pool. A tick is a call without a message, a play one that
takes the first message waiting. -/
inductive Move (σ μ κ : Type)
  | start (s : σ)
  | post (a : Addr) (m : μ)
  | tick (a : Addr) (c : κ)
  | play (a : Addr) (c : κ)

/-- What is seen of a move. -/
inductive Seen (σ μ κ ω : Type)
  | started (a : Addr) (s : σ)
  | posted (a : Addr) (m : μ)
  | called (a : Addr) (c : κ) (m : Option μ) (sends : List ω)

variable (role : Role σ μ κ ω ε)

/-- The pool when the actor at `a` has run a call that leaves `rest` waiting. -/
def ran (l : List (Actor σ μ)) (a : Addr) (s : σ) (c : κ) (m : Option μ) (rest : List μ) :
    List (Actor σ μ) × List (Seen σ μ κ ω) :=
  (l.set a (.after rest (role.call s c m)), [.called a c m (role.call s c m).2.2])

/-- One step of a pool of runners of the same role. -/
def step : Step (List (Actor σ μ)) (Move σ μ κ) (Seen σ μ κ ω) := fun l e =>
  match e with
  | .start s => some (l ++ [⟨s, [], role.ready, true⟩], [.started l.length s])
  | .post a m => if a < l.length then some (l.modify a (Actor.post m), [.posted a m]) else none
  | .tick a c =>
      match l[a]? with
      | some ⟨s, mailbox, _, true⟩ => some (role.ran l a s c none mailbox)
      | _ => none
  | .play a c =>
      match l[a]? with
      | some ⟨s, m :: rest, _, true⟩ => some (role.ran l a s c (some m) rest)
      | _ => none

/-- What a move can do. -/
inductive Moves (l : List (Actor σ μ)) : List (Actor σ μ) → List (Seen σ μ κ ω) → Prop
  | started (s : σ) : Moves l (l ++ [⟨s, [], role.ready, true⟩]) [.started l.length s]
  | posted {a : Addr} (m : μ) : a < l.length → Moves l (l.modify a (Actor.post m)) [.posted a m]
  | called {a : Addr} {x : Actor σ μ} (c : κ) (m : Option μ) (rest : List μ) :
      l[a]? = some x → x.alive = true → x.mailbox = m.toList ++ rest →
      Moves l (role.ran l a x.state c m rest).1 (role.ran l a x.state c m rest).2

variable {role} {l l' : List (Actor σ μ)} {o : List (Seen σ μ κ ω)}

theorem step_cases {e : Move σ μ κ} (h : role.step l e = some (l', o)) : role.Moves l l' o := by
  cases e with
  | start s =>
      cases h
      exact .started s
  | post a m =>
      simp only [step] at h
      split at h
      · cases h
        exact .posted m ‹_›
      · cases h
  | tick a c =>
      simp only [step] at h
      split at h
      · rename_i hget
        cases h
        exact .called c none _ hget rfl rfl
      · cases h
  | play a c =>
      simp only [step] at h
      split at h
      · rename_i hget
        cases h
        exact .called c (some _) _ hget rfl rfl
      · cases h

/-- A call the actor at `a` can run is a move. -/
theorem step_called {a : Addr} {x : Actor σ μ} (c : κ) (m : Option μ) {rest : List μ}
    (hget : l[a]? = some x) (hup : x.alive = true) (hbox : x.mailbox = m.toList ++ rest) :
    ∃ e, role.step l e = some (role.ran l a x.state c m rest) := by
  obtain ⟨s, mailbox, started, alive⟩ := x
  obtain rfl : alive = true := hup
  obtain rfl : mailbox = m.toList ++ rest := hbox
  cases m with
  | none => exact ⟨.tick a c, by simp [step, hget]⟩
  | some m => exact ⟨.play a c, by simp [step, hget]⟩

variable (role) in
/-- What is seen of a move that runs nothing says what it does. -/
def apply (l : List (Actor σ μ)) : Seen σ μ κ ω → List (Actor σ μ)
  | .started _ s => l ++ [⟨s, [], role.ready, true⟩]
  | .posted a m => l.modify a (Actor.post m)
  | .called .. => l

theorem step_started (l : List (Actor σ μ)) (s : σ) :
    ∃ e, role.step l e = some ([Seen.started l.length s].foldl role.apply l,
      [.started l.length s]) := ⟨.start s, rfl⟩

theorem step_posted {a : Addr} (ha : a < l.length) (m : μ) :
    ∃ e, role.step l e = some ([Seen.posted a m].foldl role.apply l, [.posted a m]) :=
  ⟨.post a m, if_pos ha⟩

/-! ## One actor -/

variable (role) in
/-- The calls of an actor one after the other: where they lead it, and what it
sends on the way. -/
def live (s : σ) : List (κ × Option μ) → σ × List ω
  | [] => (s, [])
  | c :: cs =>
      let r := role.call s c.1 c.2
      ((live r.2.1 cs).1, r.2.2 ++ (live r.2.1 cs).2)

theorem live_append_singleton (s : σ) (cs : List (κ × Option μ)) (c : κ × Option μ) :
    role.live s (cs ++ [c]) =
      ((role.call (role.live s cs).1 c.1 c.2).2.1,
        (role.live s cs).2 ++ (role.call (role.live s cs).1 c.1 c.2).2.2) := by
  induction cs generalizing s with
  | nil => simp [live]
  | cons d cs ih => simp [live, ih]

/-- What no call changes is as it was at the start. -/
theorem live_keeps {α : Type} {f : σ → α} (h : ∀ s c m, f (role.call s c m).2.1 = f s) (s : σ)
    (cs : List (κ × Option μ)) : f (role.live s cs).1 = f s := by
  induction cs generalizing s with
  | nil => rfl
  | cons c cs ih => exact (ih _).trans (h s c.1 c.2)

/-- The state an actor was started in. -/
def born (a : Addr) : Seen σ μ κ ω → Option σ
  | .started b s => if b = a then some s else none
  | _ => none

/-- The mail that is posted to this address. -/
def posted (a : Addr) : Seen σ μ κ ω → Option μ
  | .posted b m => if b = a then some m else none
  | _ => none

/-- The calls of the runner at this address. -/
def called (a : Addr) : Seen σ μ κ ω → Option (κ × Option μ)
  | .called b c m _ => if b = a then some (c, m) else none
  | _ => none

/-- What the runner at this address has sent. -/
def sent (a : Addr) : Seen σ μ κ ω → List ω
  | .called b _ _ sends => if b = a then sends else []
  | _ => []

theorem born_eq_some {a : Addr} {x : Seen σ μ κ ω} {s : σ} :
    born a x = some s ↔ x = .started a s := by
  cases x <;> simp [born]

theorem posted_eq_some {a : Addr} {x : Seen σ μ κ ω} {m : μ} :
    posted a x = some m ↔ x = .posted a m := by
  cases x <;> simp [posted]

theorem mem_sent {a : Addr} {x : Seen σ μ κ ω} {out : ω} :
    out ∈ sent a x ↔ ∃ c m sends, x = .called a c m sends ∧ out ∈ sends := by
  cases x <;> simp [sent]

/-- The messages among an actor's calls. -/
def taken (calls : List (κ × Option μ)) : List μ := calls.filterMap (·.2)

variable (role) in
/-- The actor is where its own calls lead it from its start; it took its
messages in the order they were posted, each once, and while it is up the
others are waiting. -/
structure Alone (s : σ) (calls : List (κ × Option μ)) (posts : List μ) (sends : List ω)
    (x : Actor σ μ) : Prop where
  state : x.state = (role.live s calls).1
  sends : sends = (role.live s calls).2
  order : taken calls ++ x.mailbox <+: posts
  all : x.alive = true → taken calls ++ x.mailbox = posts

section
variable {s : σ} {calls : List (κ × Option μ)} {posts : List μ} {sends : List ω} {x : Actor σ μ}

theorem Alone.start (s : σ) : role.Alone s [] [] [] ⟨s, [], role.ready, true⟩ where
  state := rfl
  sends := rfl
  order := List.prefix_refl _
  all _ := rfl

theorem Alone.post (h : role.Alone s calls posts sends x) (m : μ) :
    role.Alone s calls (posts ++ [m]) sends (x.post m) := by
  unfold Actor.post
  split
  · rename_i hup
    have hall : taken calls ++ (x.mailbox ++ [m]) = posts ++ [m] := by
      rw [← List.append_assoc, h.all hup]
    exact ⟨h.state, h.sends, hall ▸ List.prefix_refl _, fun _ => hall⟩
  · exact ⟨h.state, h.sends, h.order.trans (List.prefix_append _ _), fun hup => absurd hup ‹_›⟩

theorem Alone.call (h : role.Alone s calls posts sends x) {c : κ} {m : Option μ} {rest : List μ}
    (hup : x.alive = true) (hbox : x.mailbox = m.toList ++ rest) :
    role.Alone s (calls ++ [(c, m)]) posts (sends ++ (role.call x.state c m).2.2)
      (.after rest (role.call x.state c m)) := by
  have htaken : taken (calls ++ [(c, m)]) ++ rest = taken calls ++ x.mailbox := by
    rw [hbox, taken, List.filterMap_append, List.append_assoc]
    cases m <;> rfl
  have hall := htaken.trans (h.all hup)
  refine ⟨?_, ?_, hall ▸ List.prefix_refl _, fun _ => hall⟩
  · rw [live_append_singleton, ← h.state]
    rfl
  · rw [live_append_singleton, ← h.state, ← h.sends]

end

/-! ## All of them -/

/-- A move of another actor, or of none. -/
def Elsewhere (a : Addr) (x : Seen σ μ κ ω) : Prop :=
  born a x = none ∧ posted a x = none ∧ called a x = none ∧ sent a x = []

variable (role) in
/-- What is seen of a run of a pool says what every actor went through. -/
structure Pooled (os : List (Seen σ μ κ ω)) (l : List (Actor σ μ)) : Prop where
  nobody : ∀ a, l.length ≤ a → ∀ x ∈ os, Elsewhere a x
  alone : ∀ a x, l[a]? = some x → ∃ s, os.filterMap (born a) = [s] ∧
    role.Alone s (os.filterMap (called a)) (os.filterMap (posted a)) (os.flatMap (sent a)) x

theorem Pooled.nil : role.Pooled [] [] where
  nobody _ _ _ h := by cases h
  alone _ _ h := by cases h

section
variable {os : List (Seen σ μ κ ω)}

theorem nothing_of_elsewhere {a : Addr} (h : ∀ x ∈ os, Elsewhere a x) :
    os.filterMap (born a) = [] ∧ os.filterMap (called a) = [] ∧ os.filterMap (posted a) = [] ∧
      os.flatMap (sent a) = [] :=
  ⟨List.filterMap_eq_nil_iff.mpr fun x hx => (h x hx).1,
    List.filterMap_eq_nil_iff.mpr fun x hx => (h x hx).2.2.1,
    List.filterMap_eq_nil_iff.mpr fun x hx => (h x hx).2.1,
    List.flatMap_eq_nil_iff.mpr fun x hx => (h x hx).2.2.2⟩

/-- What is seen elsewhere leaves an actor as it was. -/
theorem Pooled.frame (h : role.Pooled os l) {a : Addr} {x : Actor σ μ} {y : Seen σ μ κ ω}
    (hget : l[a]? = some x) (hy : Elsewhere a y) :
    ∃ s, (os ++ [y]).filterMap (born a) = [s] ∧
      role.Alone s ((os ++ [y]).filterMap (called a)) ((os ++ [y]).filterMap (posted a))
        ((os ++ [y]).flatMap (sent a)) x := by
  obtain ⟨hborn, hposted, hcalled, hsent⟩ := hy
  simpa [hborn, hposted, hcalled, hsent] using h.alone a x hget

theorem Pooled.step (h : role.Pooled os l) (hm : role.Moves l l' o) :
    role.Pooled (os ++ o) l' := by
  cases hm with
  | started s =>
      have hother (a : Addr) (hne : l.length ≠ a) :
          Elsewhere a (Seen.started l.length s : Seen σ μ κ ω) := by
        simp [Elsewhere, born, posted, called, sent, hne]
      refine ⟨fun a ha => ?_, fun a x hx => ?_⟩
      · rw [List.length_append, List.length_singleton] at ha
        exact List.forall_mem_append.mpr ⟨h.nobody a (by omega),
          List.forall_mem_singleton.mpr (hother a (by omega))⟩
      · rcases Nat.lt_trichotomy a l.length with hlt | rfl | hgt
        · rw [List.getElem?_append_left hlt] at hx
          exact h.frame hx (hother a (by omega))
        · -- nothing was seen of the new one before
          obtain ⟨hborn, hcalled, hposted, hsent⟩ :=
            nothing_of_elsewhere (h.nobody l.length (Nat.le_refl _))
          rw [List.getElem?_concat_length] at hx
          cases hx
          refine ⟨s, by simp [hborn, born], ?_⟩
          simpa [hcalled, hposted, hsent, called, posted, sent, List.filterMap_cons] using Alone.start s
        · rw [List.getElem?_eq_none (by simp; omega)] at hx
          cases hx
  | @posted a m ha =>
      have hother (b : Addr) (hne : a ≠ b) : Elsewhere b (Seen.posted a m : Seen σ μ κ ω) := by
        simp [Elsewhere, born, posted, called, sent, hne]
      refine ⟨fun b hb => ?_, fun b x hx => ?_⟩
      · rw [List.length_modify] at hb
        refine List.forall_mem_append.mpr ⟨h.nobody b hb, ?_⟩
        exact List.forall_mem_singleton.mpr (hother b (Nat.ne_of_lt (Nat.lt_of_lt_of_le ha hb)))
      · rw [List.getElem?_modify] at hx
        by_cases hab : a = b
        · subst hab
          obtain ⟨y, hy, rfl⟩ := Option.map_eq_some_iff.mp hx
          obtain ⟨s, hborn, halone⟩ := h.alone a y hy
          refine ⟨s, by simpa [born, List.filterMap_cons] using hborn, ?_⟩
          simpa [called, posted, sent, List.filterMap_cons] using halone.post m
        · simp only [hab, if_false, id_map'] at hx
          exact h.frame hx (hother b hab)
  | @called a x c m rest hget hup hbox =>
      have hother (b : Addr) (hne : a ≠ b) :
          Elsewhere b (Seen.called a c m (role.call x.state c m).2.2 : Seen σ μ κ ω) := by
        simp [Elsewhere, born, posted, called, sent, hne]
      have ha := (List.getElem?_eq_some_iff.mp hget).1
      refine ⟨fun b hb => ?_, fun b y hy => ?_⟩
      · rw [ran, List.length_set] at hb
        refine List.forall_mem_append.mpr ⟨h.nobody b hb, ?_⟩
        exact List.forall_mem_singleton.mpr (hother b (Nat.ne_of_lt (Nat.lt_of_lt_of_le ha hb)))
      · rw [ran, List.getElem?_set] at hy
        by_cases hab : a = b
        · subst hab
          rw [if_pos rfl, if_pos ha] at hy
          cases hy
          obtain ⟨s, hborn, halone⟩ := h.alone a x hget
          refine ⟨s, by simpa [ran, born, List.filterMap_cons] using hborn, ?_⟩
          simpa [ran, called, posted, sent, List.filterMap_cons] using halone.call hup hbox
        · rw [if_neg hab] at hy
          exact h.frame hy (hother b hab)

/-- **Every actor is on its own.** In a run of a pool each actor was started
once and is where its own calls lead it from there, whatever the others did. -/
theorem pooled_of_run {guard : List (Actor σ μ) → Move σ μ κ → Prop}
    (hrun : Run role.step guard [] os l) : role.Pooled os l :=
  hrun.invariant role.Pooled .nil fun _ h _ hs => h.step (step_cases hs)

end

end Role

end MpcServer

import FastBackup.Interaction.Prog
import Mathlib.Logic.Relation

namespace Interaction
set_option autoImplicit true

/-- A queue of bounded size between a sender and a receiver, with what the receiver has taken so
far. When the receiver leaves, what waits is lost. -/
structure Channel (α : Type) (capacity : Nat) where
  taken : List α
  buffer : List α
  receiving : Bool
  bounded : buffer.length ≤ capacity
  cleared : receiving = false → buffer = []

namespace Channel
variable {α : Type} {capacity : Nat}

def fresh : Channel α capacity := ⟨[], [], true, Nat.zero_le _, fun _ => rfl⟩

def push (c : Channel α capacity) (a : α) (hr : c.receiving = true)
    (hn : c.buffer.length < capacity) : Channel α capacity where
  taken := c.taken
  buffer := c.buffer ++ [a]
  receiving := c.receiving
  bounded := by
    rw [List.length_append]
    exact hn
  cleared h := by
    rw [hr] at h
    cases h

def take (c : Channel α capacity) {a : α} {l : List α} (hb : c.buffer = a :: l) :
    Channel α capacity where
  taken := c.taken ++ [a]
  buffer := l
  receiving := c.receiving
  bounded := by
    have hle := c.bounded
    rw [hb] at hle
    exact Nat.le_of_succ_le hle
  cleared h := by
    have hnil := c.cleared h
    rw [hb] at hnil
    cases hnil

def close (c : Channel α capacity) : Channel α capacity :=
  ⟨c.taken, [], false, Nat.zero_le _, fun _ => rfl⟩

/-- How much the receiver can still do by itself. -/
def pending (c : Channel α capacity) : Nat := c.buffer.length + c.receiving.toNat

end Channel

/-- How a program sends: the message of a call, if it is one that sends, and whether its reply says
that the message was accepted. -/
structure Sends (E : Type) (R : E → Type) (α : Type) where
  item : E → Option α
  took : (e : E) → R e → Bool

variable {σ E : Type} {R : E → Type} {α β : Type} {capacity : Nat}

/-- The messages of some calls, each with whether it was accepted. -/
def Sends.messages (S : Sends E R α) (h : List (Event E R)) : List (α × Bool) :=
  h.filterMap fun ev => (S.item ev.call).map fun a => (a, S.took ev.call ev.reply)

theorem Sends.messages_snoc (S : Sends E R α) (h : List (Event E R)) (e : E) (r : R e) :
    S.messages (h ++ [⟨e, r⟩]) = S.messages h ++
      ((S.item e).map fun a => (a, S.took e r)).toList := by
  rw [messages, List.filterMap_append]
  congr 1

/-- A program with the channel it sends to. -/
structure Feed (σ E : Type) (R : E → Type) (β α : Type) (capacity : Nat) where
  state : σ
  rest : Prog E R β
  events : List (Event E R)
  chan : Channel α capacity

def Feed.start (s : σ) (p : Prog E R β) : Feed σ E R β α capacity := ⟨s, p, [], .fresh⟩

def Feed.reply (x : Feed σ E R β α capacity) (e : E) (r : R e) (s : σ) (rest : Prog E R β)
    (chan : Channel α capacity) : Feed σ E R β α capacity :=
  ⟨s, rest, x.events ++ [⟨e, r⟩], chan⟩

/-- A move of the sender or the receiver. A send waits while the buffer is full, and is refused
when the receiver has left; all other calls go to `step`. -/
inductive Feed.Move (step : σ → (e : E) → R e → σ → Prop) (S : Sends E R α) :
    Feed σ E R β α capacity → Feed σ E R β α capacity → Prop where
  | act {k : R e → Prog E R β} (hk : x.rest = .call e k) (hi : S.item e = none)
      (hs : step x.state e r s) : Move step S x (x.reply e r s (k r) x.chan)
  | push {k : R e → Prog E R β} (hk : x.rest = .call e k) (hi : S.item e = some a)
      (ht : S.took e r = true) (hr : x.chan.receiving = true)
      (hn : x.chan.buffer.length < capacity) :
      Move step S x (x.reply e r x.state (k r) (x.chan.push a hr hn))
  | refuse {k : R e → Prog E R β} (hk : x.rest = .call e k) (hi : S.item e = some a)
      (ht : S.took e r = false) (hr : x.chan.receiving = false) :
      Move step S x (x.reply e r x.state (k r) x.chan)
  | take (hb : x.chan.buffer = a :: l) : Move step S x { x with chan := x.chan.take hb }

/-- A move, the receiver leaves, or the state changes around the program. -/
inductive Feed.Step (step : σ → (e : E) → R e → σ → Prop) (S : Sends E R α) (env : σ → σ → Prop) :
    Feed σ E R β α capacity → Feed σ E R β α capacity → Prop where
  | move (hm : x.Move step S y) : Step step S env x y
  | leave (hr : x.chan.receiving = true) : Step step S env x { x with chan := x.chan.close }
  | env (he : env x.state s) : Step step S env x { x with state := s }

abbrev Feed.Steps (step : σ → (e : E) → R e → σ → Prop) (S : Sends E R α) (env : σ → σ → Prop) :
    Feed σ E R β α capacity → Feed σ E R β α capacity → Prop :=
  Relation.ReflTransGen (Feed.Step step S env)

namespace Feed
variable {step : σ → (e : E) → R e → σ → Prop} {S : Sends E R α} {env : σ → σ → Prop}
  {x y : Feed σ E R β α capacity}

/-- Nothing is lost, repeated or reordered. -/
structure Sound (p : Prog E R β) (S : Sends E R α) (x : Feed σ E R β α capacity) : Prop where
  runs : Runs p x.events x.rest
  open_eq : x.chan.receiving = true →
    S.messages x.events = (x.chan.taken ++ x.chan.buffer).map fun a => (a, true)
  left_prefix : x.chan.taken.map (fun a => (a, true)) <+: S.messages x.events

theorem messages_reply (x : Feed σ E R β α capacity) (e : E) (r : R e) (s : σ)
    (rest : Prog E R β) (chan : Channel α capacity) :
    S.messages (x.reply e r s rest chan).events = S.messages x.events ++
      ((S.item e).map fun a => (a, S.took e r)).toList :=
  S.messages_snoc x.events e r

theorem Sound.runs_reply {k : R e → Prog E R β} (hx : x.Sound p S) (hk : x.rest = .call e k)
    (r : R e) : Runs p (x.events ++ [⟨e, r⟩]) (k r) := by
  have hrun := hx.runs
  rw [hk] at hrun
  exact hrun.snoc r

theorem Sound.move (hx : x.Sound p S) (hm : x.Move step S y) : y.Sound p S := by
  cases hm with
  | act hk hi hs =>
    refine ⟨hx.runs_reply hk _, ?_, ?_⟩
    · intro hr
      rw [messages_reply, hi]
      exact (List.append_nil _).trans (hx.open_eq hr)
    · rw [messages_reply, hi]
      exact hx.left_prefix.trans (List.prefix_append _ _)
  | push hk hi ht hr hn =>
    refine ⟨hx.runs_reply hk _, ?_, ?_⟩
    · intro _
      rw [messages_reply, hi, hx.open_eq hr]
      simp [reply, Channel.push, ht]
    · rw [messages_reply]
      exact hx.left_prefix.trans (List.prefix_append _ _)
  | refuse hk hi ht hr =>
    refine ⟨hx.runs_reply hk _, ?_, ?_⟩
    · intro hr'
      rw [show x.chan.receiving = true from hr'] at hr
      cases hr
    · rw [messages_reply]
      exact hx.left_prefix.trans (List.prefix_append _ _)
  | take hb =>
    have hr : x.chan.receiving = true := by
      cases hr : x.chan.receiving with
      | true => rfl
      | false =>
        rw [x.chan.cleared hr] at hb
        cases hb
    have hmsg := hx.open_eq hr
    rw [hb] at hmsg
    refine ⟨hx.runs, ?_, ?_⟩
    · intro _
      rw [hmsg]
      simp [Channel.take]
    · rw [hmsg]
      simp [Channel.take]

theorem Sound.next (hx : x.Sound p S) (hs : x.Step step S env y) : y.Sound p S := by
  cases hs with
  | move hm => exact hx.move hm
  | leave hr =>
    refine ⟨hx.runs, ?_, hx.left_prefix⟩
    intro h
    cases h
  | env he => exact ⟨hx.runs, hx.open_eq, hx.left_prefix⟩

theorem sound_of_steps (hs : Steps step S env (start s p : Feed σ E R β α capacity) x) :
    x.Sound p S := by
  induction hs with
  | refl => exact ⟨.nil _, fun _ => rfl, List.nil_prefix⟩
  | tail _ hs ih => exact ih.next hs

/-- A move of the sender takes its program further, the others leave it and lower what the
receiver can do. -/
theorem Step.rest_cases (hs : x.Step step S (fun _ _ => False) y) :
    (∃ e, ∃ k : R e → Prog E R β, ∃ r, x.rest = .call e k ∧ y.rest = k r) ∨
      (y.rest = x.rest ∧ y.chan.pending < x.chan.pending) := by
  cases hs with
  | move hm =>
    cases hm with
    | act hk | push hk | refuse hk => exact .inl ⟨_, _, _, hk, rfl⟩
    | take hb => exact .inr ⟨rfl, by simp [Channel.pending, Channel.take, hb]⟩
  | leave hr =>
    refine .inr ⟨rfl, ?_⟩
    simp [Channel.pending, Channel.close, hr]
  | env he => cases he

/-- With the same program left, the receiver can do only so much. -/
theorem acc_of_rest {p : Prog E R β}
    (hp : ∀ y : Feed σ E R β α capacity,
      (∃ e, ∃ k : R e → Prog E R β, ∃ r, p = .call e k ∧ y.rest = k r) →
      Acc (fun y x => Step step S (fun _ _ => False) x y) y) (n : Nat) :
    ∀ x : Feed σ E R β α capacity, x.rest = p → x.chan.pending = n →
      Acc (fun y x => Step step S (fun _ _ => False) x y) x := by
  induction n using Nat.strongRecOn with
  | ind n ih =>
    intro x hx hn
    refine ⟨x, fun y hs => ?_⟩
    rcases hs.rest_cases with ⟨e, k, r, hk, hy⟩ | ⟨hrest, hlt⟩
    · exact hp y ⟨e, k, r, hx.symm.trans hk, hy⟩
    · exact ih _ (hn ▸ hlt) y (hrest.trans hx) rfl

/-- Every run ends, when nothing happens around the program. -/
theorem terminates (x : Feed σ E R β α capacity) :
    Acc (fun y x => Step step S (fun _ _ => False) x y) x := by
  generalize hp : x.rest = p
  induction p generalizing x with
  | ret a =>
    refine acc_of_rest ?_ _ x hp rfl
    rintro y ⟨e, k, r, hk, _⟩
    cases hk
  | call e k ih =>
    refine acc_of_rest ?_ _ x hp rfl
    rintro y ⟨e', k', r, hk, hy⟩
    cases hk
    exact ih r y hy

/-- What is not over can move: the sender never waits for a receiver that waits for it. -/
theorem progress (hcap : 0 < capacity)
    (hact : ∀ e, ∀ k : R e → Prog E R β, x.rest = .call e k → S.item e = none →
      ∃ r s, step x.state e r s)
    (hsend : ∀ e a, S.item e = some a → ∀ b, ∃ r, S.took e r = b) :
    (∃ y, x.Move step S y) ∨ x.rest.returned = true ∧ x.chan.buffer = [] := by
  cases hb : x.chan.buffer with
  | cons a l => exact .inl ⟨_, .take hb⟩
  | nil =>
    cases hk : x.rest with
    | ret a => exact .inr ⟨rfl, rfl⟩
    | call e k =>
      refine .inl ?_
      cases hi : S.item e with
      | none =>
        obtain ⟨r, s, hs⟩ := hact e k hk hi
        exact ⟨_, .act hk hi hs⟩
      | some a =>
        cases hr : x.chan.receiving with
        | true =>
          obtain ⟨r, ht⟩ := hsend e a hi true
          exact ⟨_, .push hk hi ht hr (by rw [hb]; exact hcap)⟩
        | false =>
          obtain ⟨r, ht⟩ := hsend e a hi false
          exact ⟨_, .refuse hk hi ht hr⟩

/-- How the calls of a program are answered when every message is accepted. -/
def Eager (step : σ → (e : E) → R e → σ → Prop) (S : Sends E R α) (s : σ) (e : E) (r : R e)
    (s' : σ) : Prop :=
  match S.item e with
  | none => step s e r s'
  | some _ => S.took e r = true ∧ s' = s

/-- With a receiver that takes each message at once, a program can do what it does when every
message is accepted. -/
theorem follows (hcap : 0 < capacity) (hx : Exec (Eager step S) s p h q s') :
    ∀ x : Feed σ E R β α capacity, x.state = s → x.rest = p → x.chan.receiving = true →
      x.chan.buffer = [] → ∃ y : Feed σ E R β α capacity, Steps step S env x y ∧ y.state = s' ∧
        y.rest = q ∧ y.events = x.events ++ h ∧ y.chan.receiving = true ∧ y.chan.buffer = [] := by
  induction hx with
  | nil s p =>
    intro x hs hp hr hb
    exact ⟨x, .refl, hs, hp, (List.append_nil _).symm, hr, hb⟩
  | @cons e s₀ r s₁ h q s' k hs _ ih =>
    intro x hstate hp hr hb
    unfold Eager at hs
    cases hi : S.item e with
    | none =>
      simp only [hi] at hs
      rw [← hstate] at hs
      obtain ⟨y, hsteps, h₁, h₂, h₃, h₄, h₅⟩ := ih (x.reply e r s₁ (k r) x.chan) rfl rfl hr hb
      refine ⟨y, .head (.move (.act hp hi hs)) hsteps, h₁, h₂, ?_, h₄, h₅⟩
      rw [h₃, reply, List.append_assoc]
      rfl
    | some a =>
      simp only [hi] at hs
      obtain ⟨ht, rfl⟩ := hs
      have hn : x.chan.buffer.length < capacity := by rw [hb]; exact hcap
      have hbuf : (x.chan.push a hr hn).buffer = [a] := by
        simp [Channel.push, hb]
      obtain ⟨y, hsteps, h₁, h₂, h₃, h₄, h₅⟩ :=
        ih (x.reply e r x.state (k r) ((x.chan.push a hr hn).take hbuf)) hstate rfl hr rfl
      have hpush : Step step S env x (x.reply e r x.state (k r) (x.chan.push a hr hn)) :=
        .move (.push hp hi ht hr hn)
      refine ⟨y, .head hpush (.head (.move (.take hbuf)) hsteps), h₁, h₂, ?_, h₄, h₅⟩
      rw [h₃, reply, List.append_assoc]
      rfl

end Feed

end Interaction

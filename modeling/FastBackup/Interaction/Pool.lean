import FastBackup.Interaction.Safe
import Mathlib.Logic.Relation
import Mathlib.Logic.Function.Basic

namespace Interaction
set_option autoImplicit true

/-- How a shared world answers the calls of concurrent tasks. A call that `awaits` suspends its
task; the others run at once. `invoke` is what issuing a call does, `abandon` what the destructors
of a task with the given history do, `env` what happens without any task. -/
structure Machine (σ E : Type) (R : E → Type) where
  handle : σ → Nat → (e : E) → R e → σ → Prop
  awaits : E → Bool
  invoke : σ → Nat → E → σ
  abandon : σ → Nat → List (Event E R) → σ
  env : σ → σ → Prop

/-- A completed call with the worlds around its effect. -/
structure Entry (σ E : Type) (R : E → Type) where
  event : Event E R
  pre : σ
  post : σ

/-- `waiting`: a call is in flight; `answered`: it took effect and the task is not resumed yet;
`dropped`: the task was cancelled at one of these; `finished`: it returned, and `released` after
the caller let go of what it returned. -/
inductive Phase where
  | ready
  | waiting
  | answered
  | finished
  | dropped
  | released
  deriving DecidableEq

def Phase.active : Phase → Bool
  | .ready | .waiting | .answered => true
  | .finished | .dropped | .released => false

structure Task (σ E : Type) (R : E → Type) (O α : Type) where
  op : O
  hist : List (Entry σ E R)
  rest : Prog E R α
  phase : Phase

structure Pool (σ E : Type) (R : E → Type) (O α : Type) where
  world : σ
  tasks : Nat → Option (Task σ E R O α)
  /-- The awaited calls in the order they were issued. -/
  trace : List (Nat × E)

variable {σ E : Type} {R : E → Type} {O α : Type}

def Task.events (x : Task σ E R O α) : List (Event E R) := x.hist.map Entry.event

/-- The task after a call got its reply. -/
def Task.reply (x : Task σ E R O α) (e : E) (r : R e) (w w' : σ) (rest : Prog E R α)
    (phase : Phase) : Task σ E R O α :=
  { x with hist := x.hist ++ [⟨⟨e, r⟩, w, w'⟩], rest := rest, phase := phase }

theorem Task.events_reply (x : Task σ E R O α) (e : E) (r : R e) (w w' : σ) (rest : Prog E R α)
    (phase : Phase) : (x.reply e r w w' rest phase).events = x.events ++ [⟨e, r⟩] :=
  List.map_append

/-- One move of task `t`. -/
inductive Move (M : Machine σ E R) (t : Nat) :
    σ → Task σ E R O α → σ → Task σ E R O α → List (Nat × E) → Prop where
  | now {k : R e → Prog E R α} (hp : x.phase = .ready) (hc : x.rest = .call e k)
      (ha : M.awaits e = false) (hh : M.handle w t e r w') :
      Move M t w x w' (x.reply e r w w' (k r) .ready) []
  | invoke {k : R e → Prog E R α} (hp : x.phase = .ready) (hc : x.rest = .call e k)
      (ha : M.awaits e = true) :
      Move M t w x (M.invoke w t e) { x with phase := .waiting } [(t, e)]
  | effect {k : R e → Prog E R α} (hp : x.phase = .waiting) (hc : x.rest = .call e k)
      (hh : M.handle w t e r w') :
      Move M t w x w' (x.reply e r w w' (k r) .answered) []
  | resume (hp : x.phase = .answered) : Move M t w x w { x with phase := .ready } []
  | drop (hp : x.phase = .waiting ∨ x.phase = .answered) :
      Move M t w x (M.abandon w t x.events) { x with phase := .dropped } []
  | finish (hp : x.phase = .ready) (hc : x.rest = .ret a) :
      Move M t w x w { x with phase := .finished } []
  | release (hp : x.phase = .finished) :
      Move M t w x (M.abandon w t x.events) { x with phase := .released } []

/-- The pool after task `t` became `x`, the world `w'`, and the calls `tr` were issued. -/
def Pool.put (c : Pool σ E R O α) (t : Nat) (x : Task σ E R O α) (w' : σ)
    (tr : List (Nat × E)) : Pool σ E R O α :=
  ⟨w', Function.update c.tasks t (some x), c.trace ++ tr⟩

@[simp] theorem Pool.put_self (c : Pool σ E R O α) (t : Nat) (x : Task σ E R O α) (w' : σ)
    (tr : List (Nat × E)) : (c.put t x w' tr).tasks t = some x := Function.update_self ..

theorem Pool.put_of_ne (c : Pool σ E R O α) (x : Task σ E R O α) (w' : σ)
    (tr : List (Nat × E)) (ht : t' ≠ t) : (c.put t x w' tr).tasks t' = c.tasks t' :=
  Function.update_of_ne ht ..

def Task.start (body : O → Prog E R α) (op : O) : Task σ E R O α :=
  ⟨op, [], body op, .ready⟩

/-- One step of the pool: a new task, a move of one task, or the environment. -/
inductive Step (M : Machine σ E R) (body : O → Prog E R α) :
    Pool σ E R O α → Pool σ E R O α → Prop where
  | spawn (t : Nat) (op : O) (hn : c.tasks t = none) :
      Step M body c (c.put t (.start body op) c.world [])
  | move (t : Nat) (hx : c.tasks t = some x) (hm : Move M t c.world x w' x' tr) :
      Step M body c (c.put t x' w' tr)
  | env (he : M.env c.world w') : Step M body c { c with world := w' }

/-- Any number of steps. -/
def Steps (M : Machine σ E R) (body : O → Prog E R α) :
    Pool σ E R O α → Pool σ E R O α → Prop :=
  Relation.ReflTransGen (Step M body)

/-- No task has been started. -/
def Pool.Initial (c : Pool σ E R O α) : Prop := (∀ t, c.tasks t = none) ∧ c.trace = []

variable {M : Machine σ E R} {body : O → Prog E R α} {c c' : Pool σ E R O α}

/-- A new task whose first call returns at once. -/
theorem steps_start {k : R e → Prog E R α} (t : Nat) (op : O) (hn : c.tasks t = none)
    (hb : body op = .call e k) (ha : M.awaits e = false) (hh : M.handle c.world t e r w') :
    ∃ c', Steps M body c c' ∧ c'.world = w' ∧ c'.trace = c.trace ∧
      c'.tasks = Function.update c.tasks t (some ⟨op, [⟨⟨e, r⟩, c.world, w'⟩], k r, .ready⟩) := by
  have hs : Step M body c (c.put t (.start body op) c.world []) := .spawn t op hn
  refine ⟨_, .tail (.single hs) (.move t (Pool.put_self ..) (.now rfl hb ha hh)), rfl, ?_, ?_⟩
  · simp [Pool.put]
  · simp [Pool.put, Task.reply, Task.start]

/-- `x'` comes from `x` by one reply, which took the world from `w` to `w'`. -/
def Replied (M : Machine σ E R) (t : Nat) (w : σ) (x : Task σ E R O α) (w' : σ)
    (x' : Task σ E R O α) : Prop :=
  ∃ e r, ∃ k : R e → Prog E R α, x.phase.active = true ∧ x.rest = .call e k ∧
    M.handle w t e r w' ∧ x'.hist = x.hist ++ [⟨⟨e, r⟩, w, w'⟩] ∧ x'.rest = k r ∧
    x'.phase.active = true ∧ x'.op = x.op

theorem Move.op_eq (hm : Move M t w x w' x' tr) : x'.op = x.op := by
  cases hm <;> rfl

/-- What a move does to the task's history. -/
theorem Move.replied_or_same (hm : Move M t w x w' x' tr) :
    Replied M t w x w' x' ∨ (x'.hist = x.hist ∧ x'.rest = x.rest) := by
  cases hm with
  | now hp hc ha hh => exact .inl ⟨_, _, _, by rw [hp]; rfl, hc, hh, rfl, rfl, rfl, rfl⟩
  | effect hp hc hh => exact .inl ⟨_, _, _, by rw [hp]; rfl, hc, hh, rfl, rfl, rfl, rfl⟩
  | invoke => exact .inr ⟨rfl, rfl⟩
  | resume => exact .inr ⟨rfl, rfl⟩
  | drop => exact .inr ⟨rfl, rfl⟩
  | finish => exact .inr ⟨rfl, rfl⟩
  | release => exact .inr ⟨rfl, rfl⟩

/-- What a move does to the world. -/
theorem Move.world_cases (hm : Move M t w x w' x' tr) :
    w' = w ∨ Replied M t w x w' x' ∨
      (∃ e, ∃ k : R e → Prog E R α, x.phase = .ready ∧ x.rest = .call e k ∧
        M.awaits e = true ∧ w' = M.invoke w t e) ∨
      (x'.phase.active = false ∧ w' = M.abandon w t x.events) := by
  cases hm with
  | now hp hc ha hh => exact .inr (.inl ⟨_, _, _, by rw [hp]; rfl, hc, hh, rfl, rfl, rfl, rfl⟩)
  | effect hp hc hh => exact .inr (.inl ⟨_, _, _, by rw [hp]; rfl, hc, hh, rfl, rfl, rfl, rfl⟩)
  | invoke hp hc ha => exact .inr (.inr (.inl ⟨_, _, hp, hc, ha, rfl⟩))
  | resume => exact .inl rfl
  | drop => exact .inr (.inr (.inr ⟨rfl, rfl⟩))
  | finish => exact .inl rfl
  | release => exact .inr (.inr (.inr ⟨rfl, rfl⟩))

/-- Where a task of the next pool comes from. -/
theorem Step.task_cases (hs : Step M body c c') (hx : c'.tasks t = some x') :
    (c.tasks t = none ∧ x' = .start body x'.op ∧ c'.world = c.world) ∨
      (c.tasks t = some x') ∨
      ∃ x tr, c.tasks t = some x ∧ Move M t c.world x c'.world x' tr ∧
        c'.trace = c.trace ++ tr := by
  cases hs with
  | spawn t₀ op hn =>
    by_cases ht : t = t₀
    · subst ht
      rw [Pool.put_self, Option.some.injEq] at hx
      subst hx
      exact .inl ⟨hn, rfl, rfl⟩
    · rw [Pool.put_of_ne _ _ _ _ ht] at hx
      exact .inr (.inl hx)
  | move t₀ hx₀ hm =>
    by_cases ht : t = t₀
    · subst ht
      rw [Pool.put_self, Option.some.injEq] at hx
      subst hx
      exact .inr (.inr ⟨_, _, hx₀, hm, rfl⟩)
    · rw [Pool.put_of_ne _ _ _ _ ht] at hx
      exact .inr (.inl hx)
  | env => exact .inr (.inl hx)

/-- A task stays in the pool, with the operation it was started for. -/
theorem Step.task_kept (hs : Step M body c c') (hx : c.tasks t = some x) :
    ∃ x', c'.tasks t = some x' ∧ x'.op = x.op := by
  cases hs with
  | spawn t₀ op hn =>
    have ht : t ≠ t₀ := by
      intro he
      rw [he, hn] at hx
      cases hx
    exact ⟨x, by rw [Pool.put_of_ne _ _ _ _ ht]; exact hx, rfl⟩
  | move t₀ hx₀ hm =>
    by_cases ht : t = t₀
    · subst ht
      rw [hx₀, Option.some.injEq] at hx
      subst hx
      exact ⟨_, Pool.put_self .., hm.op_eq⟩
    · exact ⟨x, by rw [Pool.put_of_ne _ _ _ _ ht]; exact hx, rfl⟩
  | env => exact ⟨x, hx, rfl⟩

/-- Its history only grows. -/
theorem Step.hist_kept (hs : Step M body c c') (hx : c.tasks t = some x) :
    ∃ x', c'.tasks t = some x' ∧ x.hist <+: x'.hist := by
  obtain ⟨x', hx', _⟩ := hs.task_kept hx
  refine ⟨x', hx', ?_⟩
  rcases hs.task_cases hx' with ⟨hn, _⟩ | he | ⟨y, _, hy, hm, _⟩
  · rw [hn] at hx
    cases hx
  · rw [hx, Option.some.injEq] at he
    subst he
    exact List.prefix_rfl
  · rw [hx, Option.some.injEq] at hy
    subst hy
    rcases hm.replied_or_same with ⟨e, r, k, _, _, _, hhist, _⟩ | ⟨hhist, _⟩
    · rw [hhist]
      exact List.prefix_append _ _
    · exact hhist ▸ List.prefix_rfl

/-- The trace grows when a task issues a call that awaits. -/
theorem Step.trace_cases (hs : Step M body c c') : c'.trace = c.trace ∨
    ∃ t x e, ∃ k : R e → Prog E R α, c.tasks t = some x ∧ x.phase = .ready ∧
      x.rest = .call e k ∧ M.awaits e = true ∧ c'.world = M.invoke c.world t e ∧
      c'.trace = c.trace ++ [(t, e)] := by
  cases hs with
  | spawn | env => exact .inl (by simp [Pool.put])
  | @move x _ _ _ _ t hx hm =>
    cases hm with
    | invoke hp hc ha => exact .inr ⟨t, x, _, _, hx, hp, hc, ha, rfl, rfl⟩
    | _ => exact .inl (List.append_nil _)

/-- A fact about a task that holds when the task starts, and that steps keep, holds in every pool
that comes after one without the task. -/
theorem task_rule (I : Pool σ E R O α → Task σ E R O α → Prop)
    (hstart : ∀ (c₁ c₂ : Pool σ E R O α) op, c₂.world = c₁.world → I c₂ (.start body op))
    (hkeep : ∀ c₁ c₂ x, Steps M body c c₁ → Step M body c₁ c₂ → c₁.tasks t = some x →
      c₂.tasks t = some x → I c₁ x → I c₂ x)
    (hmove : ∀ c₁ c₂ x x' tr, Steps M body c c₁ → Step M body c₁ c₂ → c₁.tasks t = some x →
      c₂.tasks t = some x' → Move M t c₁.world x c₂.world x' tr → I c₁ x → I c₂ x')
    (hn : c.tasks t = none) (hr : Steps M body c c') (hx : c'.tasks t = some x) : I c' x := by
  induction hr generalizing x with
  | refl =>
    rw [hn] at hx
    cases hx
  | @tail c₁ c₂ hr hs ih =>
    rcases hs.task_cases hx with ⟨_, he, hw⟩ | hx₁ | ⟨y, tr, hy, hm, _⟩
    · rw [he]
      exact hstart c₁ c₂ _ hw
    · exact hkeep c₁ c₂ x hr hs hx₁ hx (ih hx₁)
    · exact hmove c₁ c₂ y x tr hr hs hy hx hm (ih hy)

/-- A fact about single tasks that a move keeps holds in every reachable pool. -/
theorem tasks_invariant (P : Nat → Task σ E R O α → Prop)
    (hstart : ∀ t op, P t (.start body op))
    (hmove : ∀ t w x w' x' tr, Move M t w x w' x' tr → P t x → P t x')
    (hc : c.Initial) (hr : Steps M body c c') : ∀ t x, c'.tasks t = some x → P t x := by
  intro t x hx
  refine task_rule (fun _ x => P t x) ?_ ?_ ?_ (hc.1 t) hr hx
  · intro c₁ c₂ op _
    exact hstart t op
  · intro c₁ c₂ x _ _ _ _ hP
    exact hP
  · intro c₁ c₂ x x' tr _ _ _ _ hm hP
    exact hmove t _ x _ x' tr hm hP

/-- A call that awaits gets its reply while the task waits. -/
theorem Move.waited {k : R e → Prog E R α} (hm : Move M t w x w' x' tr) (hk : x.rest = .call e k)
    (hn : x'.hist ≠ x.hist) (ha : M.awaits e = true) : x.phase = .waiting := by
  cases hm with
  | now _ hk' hn' =>
    rw [hk] at hk'
    cases hk'
    rw [ha] at hn'
    cases hn'
  | effect hp => exact hp
  | invoke | resume | drop | finish | release => exact absurd rfl hn

/-- A fact about completed calls that holds when a call completes, and that steps keep, holds of
every completed call in every reachable pool. -/
theorem entries_invariant (I : Pool σ E R O α → Nat → Entry σ E R → Prop)
    (hkeep : ∀ c₁ c₂ t en, Steps M body c c₁ → Step M body c₁ c₂ → I c₁ t en → I c₂ t en)
    (hnew : ∀ c₁ c₂ t x e r, ∀ k : R e → Prog E R α, Steps M body c c₁ → Step M body c₁ c₂ →
      c₁.tasks t = some x → x.phase.active = true → (M.awaits e = true → x.phase = .waiting) →
      x.rest = .call e k → M.handle c₁.world t e r c₂.world → I c₂ t ⟨⟨e, r⟩, c₁.world, c₂.world⟩)
    (hc : c.Initial) (hr : Steps M body c c') :
    ∀ t x, c'.tasks t = some x → ∀ en ∈ x.hist, I c' t en := by
  intro t x hx
  refine task_rule (fun c x => ∀ en ∈ x.hist, I c t en) ?_ ?_ ?_ (hc.1 t) hr hx
  · intro c₁ c₂ op _ en hen
    cases hen
  · intro c₁ c₂ x hr hs _ _ hI en hen
    exact hkeep c₁ c₂ t en hr hs (hI en hen)
  · intro c₁ c₂ y x tr hr hs hy _ hm hI en hen
    rcases hm.replied_or_same with ⟨e, r, k, ha, hq, hh, hhist, _⟩ | ⟨hhist, _⟩
    · rw [hhist] at hen
      rcases List.mem_append.1 hen with hen | hen
      · exact hkeep c₁ c₂ t en hr hs (hI en hen)
      · rw [List.mem_singleton.1 hen]
        exact hnew c₁ c₂ t y e r k hr hs hy ha (hm.waited hq (by simp [hhist])) hq hh
    · rw [hhist] at hen
      exact hkeep c₁ c₂ t en hr hs (hI en hen)

/-- The history of a task is a run of its operation's program. -/
theorem task_runs (hc : c.Initial) (hr : Steps M body c c') :
    ∀ t x, c'.tasks t = some x → Runs (body x.op) x.events x.rest := by
  apply tasks_invariant (fun _ x => Runs (body x.op) x.events x.rest) _ _ hc hr
  · intro t op
    exact .nil _
  · intro t w x w' x' tr hm hx
    rw [hm.op_eq]
    rcases hm.replied_or_same with ⟨e, r, k, _, hc, _, hh, hk, _⟩ | ⟨hh, hk⟩
    · rw [hc] at hx
      rw [Task.events, hh, hk, List.map_append]
      exact hx.snoc r
    · rw [Task.events, hh, hk]
      exact hx

/-- The calls of `t` in a trace. -/
def callsOf (t : Nat) (tr : List (Nat × E)) : List E :=
  (tr.filter (fun c => c.1 = t)).map Prod.snd

def awaited (M : Machine σ E R) (h : List (Event E R)) : List E :=
  (h.map Event.call).filter M.awaits

theorem callsOf_append (t : Nat) (tr tr' : List (Nat × E)) :
    callsOf t (tr ++ tr') = callsOf t tr ++ callsOf t tr' := by
  simp [callsOf]

@[simp] theorem callsOf_nil (t : Nat) : callsOf t ([] : List (Nat × E)) = [] := rfl

@[simp] theorem callsOf_self (t : Nat) (e : E) : callsOf t [(t, e)] = [e] := by
  simp [callsOf]

theorem callsOf_other (e : E) (ht : t' ≠ t) : callsOf t' [(t, e)] = [] := by
  simp [callsOf, Ne.symm ht]

theorem awaited_snoc (M : Machine σ E R) (h : List (Event E R)) (ev : Event E R) :
    awaited M (h ++ [ev]) = if M.awaits ev.call then awaited M h ++ [ev.call] else awaited M h := by
  simp only [awaited, List.map_append, List.filter_append, List.map_cons, List.map_nil,
    List.filter_cons, List.filter_nil]
  split
  · rfl
  · rw [List.append_nil]

/-- The issued calls of a task are those it got a reply for and at most one more. -/
structure Traced (M : Machine σ E R) (calls pending : List E) (x : Task σ E R O α) : Prop where
  calls_eq : calls = awaited M x.events ++ pending
  waiting : x.phase = .waiting → pending ≠ []
  running : x.phase = .ready ∨ x.phase = .answered → pending = []
  pending_eq : pending = [] ∨
    ∃ e, ∃ k : R e → Prog E R α, x.rest = .call e k ∧ M.awaits e = true ∧ pending = [e]

theorem Move.traced (hm : Move M t w x w' x' tr) (hx : Traced M calls pending x) :
    ∃ pending', Traced M (calls ++ callsOf t tr) pending' x' := by
  cases hm with
  | now hp hc ha hh =>
    have hn := hx.running (.inl hp)
    refine ⟨[], ⟨?_, nofun, fun _ => rfl, .inl rfl⟩⟩
    rw [hx.calls_eq, hn, Task.events_reply, awaited_snoc, if_neg (by simp [ha]), callsOf_nil,
      List.append_nil]
  | @invoke e _ _ k hp hc ha =>
    have hn := hx.running (.inl hp)
    refine ⟨[e], ⟨?_, fun _ => by simp, by simp, .inr ⟨e, k, hc, ha, rfl⟩⟩⟩
    rw [hx.calls_eq, hn, List.append_nil, callsOf_self]
    rfl
  | effect hp hc hh =>
    rcases hx.pending_eq with hn | ⟨e, k, hr, ha, hn⟩
    · exact absurd hn (hx.waiting hp)
    · rw [hc] at hr
      cases hr
      refine ⟨[], ⟨?_, nofun, fun _ => rfl, .inl rfl⟩⟩
      rw [hx.calls_eq, hn, Task.events_reply, awaited_snoc, if_pos ha, callsOf_nil]
  | resume hp =>
    refine ⟨[], ⟨?_, nofun, fun _ => rfl, .inl rfl⟩⟩
    rw [hx.calls_eq, hx.running (.inr hp), callsOf_nil, List.append_nil]
    rfl
  | drop | finish | release =>
    refine ⟨pending, ⟨?_, nofun, by simp, hx.pending_eq⟩⟩
    rw [hx.calls_eq, callsOf_nil, List.append_nil]
    rfl

theorem Move.trace_other (hm : Move M t w x w' x' tr) (ht : t' ≠ t) : callsOf t' tr = [] := by
  cases hm with
  | invoke => exact callsOf_other _ ht
  | _ => rfl

/-- How the trace relates to the histories of the tasks, in every reachable pool. -/
theorem pool_traced (hc : c.Initial) (hr : Steps M body c c') :
    (∀ t, c'.tasks t = none → callsOf t c'.trace = []) ∧
      ∀ t x, c'.tasks t = some x → ∃ pending, Traced M (callsOf t c'.trace) pending x := by
  induction hr with
  | refl =>
    refine ⟨fun t _ => by rw [hc.2]; rfl, ?_⟩
    intro t x hx
    rw [hc.1 t] at hx
    cases hx
  | @tail c c' _ hs ih =>
    cases hs with
    | env he => exact ih
    | spawn t₀ op hn =>
      refine ⟨?_, ?_⟩
      · intro t ht
        by_cases he : t = t₀
        · rw [he, Pool.put_self] at ht
          cases ht
        · rw [Pool.put_of_ne _ _ _ _ he] at ht
          rw [Pool.put, List.append_nil]
          exact ih.1 t ht
      · intro t x hx
        rw [Pool.put, List.append_nil]
        by_cases he : t = t₀
        · rw [he, Pool.put_self, Option.some.injEq] at hx
          rw [he, ← hx, ih.1 t₀ hn]
          exact ⟨[], ⟨rfl, nofun, fun _ => rfl, .inl rfl⟩⟩
        · rw [Pool.put_of_ne _ _ _ _ he] at hx
          exact ih.2 t x hx
    | move t₀ hx₀ hm =>
      refine ⟨?_, ?_⟩
      · intro t ht
        have he : t ≠ t₀ := by
          rintro rfl
          rw [Pool.put_self] at ht
          cases ht
        rw [Pool.put_of_ne _ _ _ _ he] at ht
        rw [Pool.put, callsOf_append, ih.1 t ht, hm.trace_other he]
        rfl
      · intro t x hx
        rw [Pool.put, callsOf_append]
        by_cases he : t = t₀
        · subst he
          rw [Pool.put_self, Option.some.injEq] at hx
          rw [← hx]
          obtain ⟨pending, hp⟩ := ih.2 t _ hx₀
          exact hm.traced hp
        · rw [Pool.put_of_ne _ _ _ _ he] at hx
          rw [hm.trace_other he, List.append_nil]
          exact ih.2 t x hx

/-- A call that a task waits for was issued. -/
theorem waiting_issued {k : R e → Prog E R α} (hc : c.Initial) (hr : Steps M body c c')
    (hx : c'.tasks t = some x) (hp : x.phase = .waiting) (hk : x.rest = .call e k) :
    (t, e) ∈ c'.trace := by
  obtain ⟨pending, htr⟩ := (pool_traced hc hr).2 t x hx
  rcases htr.pending_eq with hn | ⟨e', k', hk', _, hn⟩
  · exact absurd hn (htr.waiting hp)
  · rw [hk] at hk'
    cases hk'
    have hm : e ∈ callsOf t c'.trace := by
      rw [htr.calls_eq, hn]
      exact List.mem_append_right _ (List.mem_singleton_self e)
    obtain ⟨p, hp, he⟩ := List.mem_map.1 hm
    obtain ⟨hp, ht⟩ := List.mem_filter.1 hp
    rw [← of_decide_eq_true ht, ← he]
    exact hp

theorem Step.trace_mono (hs : Step M body c c') : c.trace ⊆ c'.trace := by
  rcases hs.trace_cases with he | ⟨_, _, _, _, _, _, _, _, _, he⟩
  · rw [he]
    exact fun _ hm => hm
  · rw [he]
    exact List.subset_append_left _ _

theorem Steps.trace_mono (hr : Steps M body c c') : c.trace ⊆ c'.trace := by
  induction hr with
  | refl => exact fun _ hm => hm
  | tail _ hs ih => exact fun _ hm => hs.trace_mono (ih hm)

end Interaction

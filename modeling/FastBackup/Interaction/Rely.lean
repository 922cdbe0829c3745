import FastBackup.Interaction.Pool

namespace Interaction
set_option autoImplicit true

variable {σ E : Type} {R : E → Type} {O α : Type}

/-- A task's own view of a run: before each reply the world may have moved as `rely` allows. The
state is the task's history and the world at its last reply. -/
def Under (M : Machine σ E R) (t : Nat) (rely : List (Entry σ E R) → σ → σ → Prop)
    (s : List (Entry σ E R) × σ) (e : E) (r : R e) (s' : List (Entry σ E R) × σ) : Prop :=
  ∃ w, rely s.1 s.2 w ∧ M.handle w t e r s'.2 ∧ s'.1 = s.1 ++ [⟨⟨e, r⟩, w, s'.2⟩]

/-- In every run from `c₀`, what happens between two replies to a task is allowed by `rely`. -/
structure Rely (M : Machine σ E R) (body : O → Prog E R α) (c₀ : Pool σ E R O α)
    (rely : Nat → List (Entry σ E R) → σ → σ → Prop) : Prop where
  refl : rely t h w w
  trans : rely t h w w' → rely t h w' w'' → rely t h w w''
  step : Steps M body c₀ c → Step M body c c' → c.tasks t = some x → c'.tasks t = some x' →
    x.phase.active = true → x'.phase.active = true → x'.hist = x.hist →
    rely t x.hist c.world c'.world

variable {M : Machine σ E R} {body : O → Prog E R α} {c₀ c c' : Pool σ E R O α}
  {rely : Nat → List (Entry σ E R) → σ → σ → Prop}

theorem Move.active (hm : Move M t w x w' x' tr) (ha : x'.phase.active = true) :
    x.phase.active = true := by
  cases hm with
  | now hp | invoke hp | effect hp | resume hp => rw [hp]; rfl
  | drop | finish | release => cases ha

/-- The history of every task is an execution of its program under `rely`. -/
theorem Rely.exec (hR : Rely M body c₀ rely) (hc : c₀.Initial) (hr : Steps M body c₀ c) :
    ∀ t x, c.tasks t = some x → ∃ w₀ w,
      Exec (Under M t (rely t)) ([], w₀) (body x.op) x.events x.rest (x.hist, w) ∧
        (x.phase.active = true → rely t x.hist w c.world) := by
  intro t x hx
  refine task_rule (fun c x => ∃ w₀ w,
    Exec (Under M t (rely t)) ([], w₀) (body x.op) x.events x.rest (x.hist, w) ∧
      (x.phase.active = true → rely t x.hist w c.world)) ?_ ?_ ?_ (hc.1 t) hr hx
  · intro c c' op hw
    exact ⟨c.world, c.world, .nil _ _, fun _ => by rw [hw]; exact hR.refl⟩
  · rintro c c' x hr hs hx hx' ⟨w₀, w, hex, hl⟩
    exact ⟨w₀, w, hex, fun ha => hR.trans (hl ha) (hR.step hr hs hx hx' ha ha rfl)⟩
  · rintro c c' x x' tr hr hs hx hx' hm ⟨w₀, w, hex, hl⟩
    rcases hm.replied_or_same with ⟨e, r, k, ha, hc, hh, hhist, hk, _, hop⟩ | ⟨hhist, hrest⟩
    · refine ⟨w₀, c'.world, ?_, fun _ => hR.refl⟩
      rw [hc] at hex
      have hs : Under M t (rely t) (x.hist, w) e r (x'.hist, c'.world) :=
        ⟨c.world, hl ha, hh, hhist⟩
      have hx := hex.append (.cons hs (.nil _ _))
      rw [Task.events, hhist, List.map_append, hop, ← hhist, hk]
      exact hx
    · refine ⟨w₀, w, ?_, ?_⟩
      · rw [Task.events, hhist, hrest, hm.op_eq]
        exact hex
      · intro ha
        rw [hhist]
        exact hR.trans (hl (hm.active ha)) (hR.step hr hs hx hx' (hm.active ha) ha hhist)

/-- The history of an execution grows by one entry for each event. -/
theorem exec_entry {p q : Prog E R α} {rely : List (Entry σ E R) → σ → σ → Prop}
    (hp : Exec (Under M t rely) s p evs q s') :
    ∃ h', s'.1 = s.1 ++ h' ∧ ∀ h₁ en h₂, h' = h₁ ++ en :: h₂ → ∃ w k,
      Exec (Under M t rely) s p (h₁.map Entry.event) (.call en.event.call k) (s.1 ++ h₁, w) ∧
        rely (s.1 ++ h₁) w en.pre ∧
        M.handle en.pre t en.event.call en.event.reply en.post := by
  induction hp with
  | nil =>
    refine ⟨[], (List.append_nil _).symm, ?_⟩
    intro h₁ en h₂ he
    simp at he
  | @cons e s₀ r s₁ evs q s' k hs _ ih =>
    obtain ⟨w, hw, hh, he⟩ := hs
    obtain ⟨h', hh', hsplit⟩ := ih
    refine ⟨⟨⟨e, r⟩, w, s₁.2⟩ :: h', by rw [hh', he, List.append_assoc, List.singleton_append], ?_⟩
    intro h₁ en h₂ hsp
    cases h₁ with
    | nil =>
      rw [List.nil_append, List.cons.injEq] at hsp
      obtain ⟨rfl, _⟩ := hsp
      rw [List.append_nil]
      exact ⟨s₀.2, k, .nil _ _, hw, hh⟩
    | cons en' h₁ =>
      rw [List.cons_append, List.cons.injEq] at hsp
      obtain ⟨rfl, hsp⟩ := hsp
      obtain ⟨w', k', hex, hrel, hhd⟩ := hsplit h₁ en h₂ hsp
      rw [he, List.append_assoc, List.singleton_append] at hex hrel
      exact ⟨w', k', .cons ⟨w, hw, hh, he⟩ hex, hrel, hhd⟩

theorem exec_uncons {p q : Prog E R α} {rely : List (Entry σ E R) → σ → σ → Prop} {r : R e}
    (hp : Exec (Under M t rely) (h, w) p (⟨e, r⟩ :: evs) q s') :
    ∃ w₁ w₂ p', rely h w w₁ ∧ M.handle w₁ t e r w₂ ∧
      Exec (Under M t rely) (h ++ [⟨⟨e, r⟩, w₁, w₂⟩], w₂) p' evs q s' := by
  cases hp with
  | @cons _ _ _ s₁ _ _ _ k hs hr =>
    obtain ⟨w₁, hw, hh, he⟩ := hs
    refine ⟨w₁, s₁.2, k r, hw, hh, ?_⟩
    rw [← he]
    exact hr

theorem exec_events {p q : Prog E R α} {rely : List (Entry σ E R) → σ → σ → Prop}
    (hp : Exec (Under M t rely) s p evs q s') :
    s'.1.map Entry.event = s.1.map Entry.event ++ evs := by
  induction hp with
  | nil => rw [List.append_nil]
  | cons hs _ ih =>
    obtain ⟨w, _, _, he⟩ := hs
    rw [ih, he, List.map_append, List.append_assoc]
    rfl

/-- The history at the end extends the one at the start. -/
theorem Meets.history {p : Prog E R α} {rely : List (Entry σ E R) → σ → σ → Prop}
    {pre : List (Entry σ E R) × σ → E → Prop} {post : List (Entry σ E R) × σ → α → Prop}
    (hm : Meets (Under M t rely) pre post s p) :
    Meets (Under M t rely) pre (fun s' a => post s' a ∧ ∃ h, s'.1 = s.1 ++ h) s p := by
  induction p generalizing s with
  | ret a => exact ⟨hm, [], (List.append_nil _).symm⟩
  | call e k ih =>
    refine ⟨hm.1, ?_⟩
    intro r s' hs
    refine (ih r (hm.2 r s' hs)).post_mono ?_
    rintro s'' a ⟨hp, h, hh⟩
    obtain ⟨w, _, _, he⟩ := hs
    exact ⟨hp, _ :: h, by rw [hh, he, List.append_assoc]; rfl⟩

/-- An invariant of the steps that a safe program makes holds in all its executions. -/
theorem Safe.invariant {pre : List (Event E R) → E → Prop} {post : List (Event E R) → α → Prop}
    {p q : Prog E R α} {rely : List (Entry σ E R) → σ → σ → Prop}
    (I : List (Entry σ E R) → σ → Prop) (hs : Safe pre post (s.1.map Entry.event) p)
    (hI : ∀ h w e r w₁ w₂, I h w → pre (h.map Entry.event) e → rely h w w₁ →
      M.handle w₁ t e r w₂ → I (h ++ [⟨⟨e, r⟩, w₁, w₂⟩]) w₂)
    (hi : I s.1 s.2) (hp : Exec (Under M t rely) s p evs q s') : I s'.1 s'.2 := by
  induction hp with
  | nil => exact hi
  | @cons e s₀ r s₁ evs q s' k hst _ ih =>
    obtain ⟨w, hw, hh, he⟩ := hst
    refine ih (hs.2 r _ ?_) ?_
    · rw [he, List.map_append]
      rfl
    · rw [he]
      exact hI _ _ _ _ _ _ hi hs.1 hw hh

section Spec
variable {pre : List (Entry σ E R) × σ → E → Prop} {post : List (Entry σ E R) × σ → α → Prop}
  {x : Task σ E R O α} (hR : Rely M body c₀ rely) (hc : c₀.Initial)
  (hr : Steps M body c₀ c) (hx : c.tasks t = some x)
  (hm : ∀ w₀, Meets (Under M t (rely t)) pre post ([], w₀) (body x.op))

include hR hc hr hx hm

/-- What the program of a task meets before a call, at each completed call of the task. -/
theorem Rely.entry (hh : x.hist = h₁ ++ en :: h₂) : ∃ w, pre (h₁, w) en.event.call ∧
    rely t h₁ w en.pre ∧ M.handle en.pre t en.event.call en.event.reply en.post := by
  obtain ⟨w₀, w, hex, _⟩ := hR.exec hc hr t x hx
  obtain ⟨h', hh', hsplit⟩ := exec_entry hex
  rw [List.nil_append] at hh'
  obtain ⟨w', k, hex', hrel, hhd⟩ := hsplit h₁ en h₂ (hh'.symm.trans hh)
  exact ⟨w', ((hm w₀).exec hex').1, hrel, hhd⟩

/-- And when it returned. -/
theorem Rely.returned (hk : x.rest = .ret a) :
    ∃ w, post (x.hist, w) a ∧ (x.phase.active = true → rely t x.hist w c.world) := by
  obtain ⟨w₀, w, hex, hl⟩ := hR.exec hc hr t x hx
  rw [hk] at hex
  exact ⟨w, (hm w₀).exec hex, hl⟩

end Spec

/-- A call that a task issued was the next one of an execution that its history extends. -/
theorem Rely.invoked {x : Task σ E R O α} (hR : Rely M body c₀ rely) (hc : c₀.Initial)
    (hr : Steps M body c₀ c) (hx : c.tasks t = some x) (hi : (t, e) ∈ c.trace) :
    ∃ w₀ h w k, h <+: x.hist ∧
      Exec (Under M t (rely t)) ([], w₀) (body x.op) (h.map Entry.event) (.call e k) (h, w) := by
  obtain ⟨w₀, w, hex, _⟩ := hR.exec hc hr t x hx
  obtain ⟨pending, htr⟩ := (pool_traced hc hr).2 t x hx
  have hm : e ∈ callsOf t c.trace := List.mem_map.2 ⟨(t, e), List.mem_filter.2 ⟨hi, by simp⟩, rfl⟩
  rw [htr.calls_eq] at hm
  rcases List.mem_append.1 hm with hm | hm
  · obtain ⟨ev, hev, rfl⟩ := List.mem_map.1 (List.mem_filter.1 hm).1
    obtain ⟨en, hen, rfl⟩ := List.mem_map.1 hev
    obtain ⟨h₁, h₂, hh⟩ := List.append_of_mem hen
    obtain ⟨h', hh', hsplit⟩ := exec_entry hex
    obtain ⟨w', k, hex', _⟩ := hsplit h₁ en h₂ (hh'.symm.trans hh)
    exact ⟨w₀, h₁, w', k, ⟨en :: h₂, hh.symm⟩, hex'⟩
  · rcases htr.pending_eq with hp | ⟨e', k, hk, _, hp⟩
    · rw [hp] at hm
      cases hm
    · rw [hp, List.mem_singleton] at hm
      subst hm
      rw [hk] at hex
      exact ⟨w₀, x.hist, w, k, List.prefix_rfl, hex⟩

/-- Tasks started after `c` saw only worlds of pools after `c`. -/
theorem entries_since (I : σ → Prop) (hw : ∀ c', Steps M body c c' → I c'.world)
    (hr : Steps M body c c') (hn : c.tasks t = none) (hx : c'.tasks t = some x) :
    ∀ en ∈ x.hist, I en.pre := by
  refine task_rule (fun _ x => ∀ en ∈ x.hist, I en.pre) ?_ ?_ ?_ hn hr hx
  · intro c₁ c₂ op _ en hen
    cases hen
  · intro c₁ c₂ x _ _ _ _ hI
    exact hI
  · intro c₁ c₂ y x tr hr _ _ _ hm hI en hen
    rcases hm.replied_or_same with ⟨e, r, k, _, _, _, hhist, _⟩ | ⟨hhist, _⟩
    · rw [hhist] at hen
      rcases List.mem_append.1 hen with hen | hen
      · exact hI en hen
      · rw [List.mem_singleton.1 hen]
        exact hw c₁ hr
    · rw [hhist] at hen
      exact hI en hen

/-- Each call of a task started after `c` met the world of a pool between `c` and now. -/
theorem entry_between (hr : Steps M body c c') (hn : c.tasks t = none) (hx : c'.tasks t = some x) :
    ∀ en ∈ x.hist, ∃ c₁ : Pool σ E R O α,
      Steps M body c c₁ ∧ Steps M body c₁ c' ∧ en.pre = c₁.world := by
  refine task_rule (fun c' x => ∀ en ∈ x.hist, ∃ c₁ : Pool σ E R O α,
    Steps M body c c₁ ∧ Steps M body c₁ c' ∧ en.pre = c₁.world) ?_ ?_ ?_ hn hr hx
  · intro c₁ c₂ op _ en hen
    cases hen
  · intro c₁ c₂ x _ hs _ _ hI en hen
    obtain ⟨c₃, h₁, h₂, he⟩ := hI en hen
    exact ⟨c₃, h₁, h₂.tail hs, he⟩
  · intro c₁ c₂ y x tr hr hs _ _ hm hI en hen
    have hold : en ∈ y.hist → ∃ c₃ : Pool σ E R O α,
        Steps M body c c₃ ∧ Steps M body c₃ c₂ ∧ en.pre = c₃.world := by
      intro hen
      obtain ⟨c₃, h₁, h₂, he⟩ := hI en hen
      exact ⟨c₃, h₁, h₂.tail hs, he⟩
    rcases hm.replied_or_same with ⟨e, r, k, _, _, _, hhist, _⟩ | ⟨hhist, _⟩
    · rw [hhist] at hen
      rcases List.mem_append.1 hen with hen | hen
      · exact hold hen
      · rw [List.mem_singleton.1 hen]
        exact ⟨c₁, hr, .single hs, rfl⟩
    · rw [hhist] at hen
      exact hold hen

/-- A task by itself can run in a pool as it runs alone. -/
theorem steps_of_exec {p q : Prog E R α} {x : Task σ E R O α}
    (hx : Exec (Under M t fun _ w w' => w' = w) s p evs q s')
    (hi : ∀ ev ∈ evs, ∀ w, M.invoke w t ev.call = w) (hc : c.tasks t = some x)
    (hp : x.phase = .ready) (hrest : x.rest = p) (hhist : x.hist = s.1) (hw : c.world = s.2) :
    ∃ c', Steps M body c c' ∧ c'.world = s'.2 ∧
      c'.tasks t = some { x with hist := s'.1, rest := q } ∧
      (∀ t', t' ≠ t → c'.tasks t' = c.tasks t') ∧
      c'.trace = c.trace ++ (awaited M evs).map (t, ·) := by
  induction hx generalizing c x with
  | nil =>
    obtain ⟨op, hist, rest, phase⟩ := x
    refine ⟨c, .refl, hw, ?_, fun _ _ => rfl, by simp [awaited]⟩
    rw [hc, ← hhist, ← hrest]
  | @cons e s₀ r s₁ evs q s' k hs hex ih =>
    obtain ⟨w, rfl, hh, he⟩ := hs
    have hrep : ∀ c₁ : Pool σ E R O α, Steps M body c c₁ →
        c₁.tasks t = some (x.reply e r s₀.2 s₁.2 (k r) .ready) → c₁.world = s₁.2 →
        (∀ t', t' ≠ t → c₁.tasks t' = c.tasks t') →
        c₁.trace = c.trace ++ (awaited M [⟨e, r⟩]).map (t, ·) →
        ∃ c', Steps M body c c' ∧ c'.world = s'.2 ∧
          c'.tasks t = some { x with hist := s'.1, rest := q } ∧
          (∀ t', t' ≠ t → c'.tasks t' = c.tasks t') ∧
          c'.trace = c.trace ++ (awaited M (⟨e, r⟩ :: evs)).map (t, ·) := by
      intro c₁ hr ht hw₁ ho htr
      obtain ⟨c', hr', hw', ht', ho', htr'⟩ := ih (c := c₁)
        (fun ev hm => hi ev (List.mem_cons_of_mem _ hm)) ht rfl rfl
        (by rw [he, ← hhist]; rfl) hw₁
      refine ⟨c', hr.trans hr', hw', ?_, fun t' hn => (ho' t' hn).trans (ho t' hn), ?_⟩
      · rw [ht', Task.reply, hp]
      · rw [htr', htr, List.append_assoc, ← List.map_append]
        simp [awaited, List.filter_cons]
        split <;> simp
    rw [← hw] at hh hrep
    cases ha : M.awaits e with
    | false =>
      refine hrep _ (.single (.move t hc (.now hp hrest ha hh))) (Pool.put_self ..) rfl ?_ ?_
      · exact fun t' hn => Pool.put_of_ne _ _ _ _ hn
      simp [Pool.put, awaited, ha]
    | true =>
      have hinv : M.invoke c.world t e = c.world := hi ⟨e, r⟩ (List.mem_cons_self ..) _
      let x₁ : Task σ E R O α := { x with phase := .waiting }
      let x₂ := x₁.reply e r c.world s₁.2 (k r) .answered
      let c₁ := c.put t x₁ c.world [(t, e)]
      let c₂ := c₁.put t x₂ s₁.2 []
      have h₁ : Step M body c c₁ := by
        have hm : Step M body c _ := .move t hc (.invoke hp hrest ha)
        rwa [hinv] at hm
      have h₂ : Step M body c₁ c₂ := .move t (Pool.put_self ..) (.effect rfl hrest hh)
      have h₃ : Step M body c₂ (c₂.put t { x₂ with phase := .ready } s₁.2 []) :=
        .move t (Pool.put_self ..) (.resume rfl)
      refine hrep _ (.tail (.tail (.single h₁) h₂) h₃) (Pool.put_self ..) rfl ?_ ?_
      · intro t' hn
        rw [Pool.put_of_ne _ _ _ _ hn, Pool.put_of_ne _ _ _ _ hn, Pool.put_of_ne _ _ _ _ hn]
      simp [c₂, c₁, Pool.put, awaited, ha]

end Interaction

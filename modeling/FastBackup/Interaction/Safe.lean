import FastBackup.Interaction.Prog

namespace Interaction
set_option autoImplicit true

variable {σ E : Type} {R : E → Type} {step : σ → (e : E) → R e → σ → Prop}
  {pre pre' : σ → E → Prop}

/-- Entered in state `s`, the program makes each call only where `pre` allows it and returns only
where `post` allows it, whatever replies `step` gives. -/
def Meets (step : σ → (e : E) → R e → σ → Prop) (pre : σ → E → Prop) (post : σ → α → Prop) :
    σ → Prog E R α → Prop
  | s, .ret a => post s a
  | s, .call e k => pre s e ∧ ∀ r s', step s e r s' → Meets step pre post s' (k r)

theorem Meets.mono {post post' : σ → α → Prop} {p : Prog E R α}
    (hp : Meets step pre post s p) (hpre : ∀ s e, pre s e → pre' s e)
    (hpost : ∀ s a, post s a → post' s a) : Meets step pre' post' s p := by
  induction p generalizing s with
  | ret a => exact hpost s a hp
  | call e k ih => exact ⟨hpre s e hp.1, fun r s' hs => ih r (hp.2 r s' hs)⟩

theorem Meets.top (p : Prog E R α) (s : σ) :
    Meets step (fun _ _ => True) (fun _ _ => True) s p := by
  induction p generalizing s with
  | ret => trivial
  | call e k ih => exact ⟨trivial, fun r s' _ => ih r s'⟩

theorem Meets.post_mono {post post' : σ → α → Prop} {p : Prog E R α}
    (hp : Meets step pre post s p) (hpost : ∀ s a, post s a → post' s a) :
    Meets step pre post' s p :=
  hp.mono (fun _ _ hc => hc) hpost

/-- The rule of sequence. -/
theorem Meets.bind {post : σ → β → Prop} {p : Prog E R α} {f : α → Prog E R β}
    (hp : Meets step pre (fun s a => Meets step pre post s (f a)) s p) :
    Meets step pre post s (p >>= f) := by
  induction p generalizing s with
  | ret a => exact hp
  | call e k ih => exact ⟨hp.1, fun r s' hs => ih r (hp.2 r s' hs)⟩

theorem Meets.map {post : σ → β → Prop} {p : Prog E R α} {f : α → β}
    (hp : Meets step pre (fun s a => post s (f a)) s p) : Meets step pre post s (f <$> p) :=
  Meets.bind (f := fun a => .ret (f a)) hp

/-- The rule of sequence when the first part may fail and the failure is passed on. -/
theorem Meets.bindE {post : σ → Except ε β → Prop}
    {x : ExceptT ε (Prog E R) α} {f : α → ExceptT ε (Prog E R) β}
    (hx : Meets step pre (fun s r => match r with
      | .ok a => Meets step pre post s (f a).run
      | .error e => post s (.error e)) s x.run) : Meets step pre post s (x >>= f).run := by
  rw [ExceptT.run_bind]
  apply Meets.bind
  refine hx.post_mono ?_
  intro s r hr
  cases r with
  | ok a => exact hr
  | error e => exact hr

/-- What a program meets at the start it meets at every later point of an execution. -/
theorem Meets.exec {post : σ → α → Prop} {p q : Prog E R α} (hm : Meets step pre post s p)
    (hp : Exec step s p h q s') : Meets step pre post s' q := by
  induction hp with
  | nil => exact hm
  | cons hs _ ih => exact ih (hm.2 _ _ hs)

/-- The history as state. -/
def Recorded (h : List (Event E R)) (e : E) (r : R e) (h' : List (Event E R)) : Prop :=
  h' = h ++ [⟨e, r⟩]

theorem Runs.exec {p q : Prog E R α} (hr : Runs p h q) (h₀ : List (Event E R)) :
    Exec Recorded h₀ p h q (h₀ ++ h) := by
  induction hr generalizing h₀ with
  | nil =>
    rw [List.append_nil]
    exact .nil _ _
  | @cons e h q k r _ ih =>
    have hk := ih (h₀ ++ [⟨e, r⟩])
    rw [List.append_assoc] at hk
    exact .cons rfl hk

/-- `Meets` for assertions about the history, whatever the replies are. -/
abbrev Safe (pre : List (Event E R) → E → Prop) (post : List (Event E R) → α → Prop) :
    List (Event E R) → Prog E R α → Prop :=
  Meets Recorded pre post

variable {pre : List (Event E R) → E → Prop}

theorem Safe.call {post : List (Event E R) → α → Prop} {k : R e → Prog E R α} (hp : pre h e)
    (hk : ∀ r, Safe pre post (h ++ [⟨e, r⟩]) (k r)) : Safe pre post h (.call e k) := by
  refine ⟨hp, ?_⟩
  rintro r _ rfl
  exact hk r

/-- Before each call of a run of a safe program `pre` holds. -/
theorem Safe.pre_of_runs {post : List (Event E R) → α → Prop} {p : Prog E R α}
    {k : R e → Prog E R α} (hs : Safe pre post [] p) (hr : Runs p h (.call e k)) : pre h e :=
  (hs.exec (hr.exec [])).1

theorem Safe.pre_at {post : List (Event E R) → α → Prop} {p q : Prog E R α}
    (hs : Safe pre post [] p) (hr : Runs p (h ++ ev :: h') q) : pre h ev.call := by
  obtain ⟨p', _, hp, hq⟩ := (hr.exec []).split
  cases hq with
  | cons => exact hs.pre_of_runs hp.runs

theorem Safe.post_of_runs {post : List (Event E R) → α → Prop} {p : Prog E R α}
    (hs : Safe pre post [] p) (hr : Runs p h (.ret a)) : post h a :=
  hs.exec (hr.exec [])

end Interaction

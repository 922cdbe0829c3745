import Mathlib.Logic.Basic

namespace Interaction
set_option autoImplicit true

/-- A program is a result, or a call whose reply chooses the rest of the program. -/
inductive Prog (E : Type) (R : E → Type) (α : Type) where
  | ret (a : α) : Prog E R α
  | call (e : E) (k : R e → Prog E R α) : Prog E R α

variable {σ E : Type} {R : E → Type}

def Prog.bind : Prog E R α → (α → Prog E R β) → Prog E R β
  | .ret a, f => f a
  | .call e k, f => .call e (fun r => (k r).bind f)

instance : Monad (Prog E R) where
  pure := .ret
  bind := .bind

/-- The program that makes one call and returns its reply. -/
def Prog.perform (e : E) : Prog E R (R e) := .call e .ret

@[simp] theorem Prog.pure_eq (a : α) : (pure a : Prog E R α) = .ret a := rfl

@[simp] theorem Prog.ret_bind (a : α) (f : α → Prog E R β) : (Prog.ret a >>= f) = f a := rfl

@[simp] theorem Prog.call_bind (e : E) (k : R e → Prog E R α) (f : α → Prog E R β) :
    (Prog.call e k >>= f) = .call e (fun r => k r >>= f) := rfl

@[simp] theorem Prog.perform_bind (e : E) (f : R e → Prog E R β) :
    (Prog.perform e >>= f) = .call e f := rfl

theorem Prog.bind_ret (p : Prog E R α) : (p >>= Prog.ret) = p := by
  induction p with
  | ret => rfl
  | call e k ih => exact congrArg (Prog.call e) (funext ih)

theorem Prog.bind_assoc (p : Prog E R α) (f : α → Prog E R β) (g : β → Prog E R γ) :
    (p >>= f >>= g) = (p >>= fun a => f a >>= g) := by
  induction p with
  | ret => rfl
  | call e k ih => exact congrArg (Prog.call e) (funext ih)

instance : LawfulMonad (Prog E R) :=
  LawfulMonad.mk' _ Prog.bind_ret (fun _ _ => rfl) Prog.bind_assoc

/-- The program has nothing left to do. -/
def Prog.returned : Prog E R α → Bool
  | .ret _ => true
  | .call _ _ => false

/-- One call with the reply it got. -/
structure Event (E : Type) (R : E → Type) where
  call : E
  reply : R call

/-- `p` can make the calls of `h`, get those replies, and have `q` left to do. -/
inductive Runs {α : Type} : Prog E R α → List (Event E R) → Prog E R α → Prop where
  | nil (p : Prog E R α) : Runs p [] p
  | cons {k : R e → Prog E R α} (r : R e) : Runs (k r) h q → Runs (.call e k) (⟨e, r⟩ :: h) q

/-- `p` runs from state `s`, where `step` says which replies each call can get and what it does
to the state. -/
inductive Exec {α : Type} (step : σ → (e : E) → R e → σ → Prop) :
    σ → Prog E R α → List (Event E R) → Prog E R α → σ → Prop where
  | nil (s : σ) (p : Prog E R α) : Exec step s p [] p s
  | cons {k : R e → Prog E R α} (hs : step s e r s') : Exec step s' (k r) h q s'' →
      Exec step s (.call e k) (⟨e, r⟩ :: h) q s''

variable {p q q' : Prog E R α} {h h' : List (Event E R)} {e : E} {k : R e → Prog E R α}
  {step : σ → (e : E) → R e → σ → Prop}

theorem Runs.append (hp : Runs p h q) (hq : Runs q h' q') : Runs p (h ++ h') q' := by
  induction hp with
  | nil => exact hq
  | cons r _ ih => exact .cons r (ih hq)

theorem Runs.snoc (hp : Runs p h (.call e k)) (r : R e) : Runs p (h ++ [⟨e, r⟩]) (k r) :=
  hp.append (.cons r (.nil _))

theorem Runs.bind (hp : Runs p h q) (f : α → Prog E R β) : Runs (p >>= f) h (q >>= f) := by
  induction hp with
  | nil => exact .nil _
  | cons r _ ih => exact .cons r ih

theorem runs_ret (hp : Runs (.ret a) h q) : h = [] ∧ q = .ret a := by
  cases hp
  exact ⟨rfl, rfl⟩

/-- What only looks at the result makes no calls of its own. -/
theorem runs_map {p : Prog E R α} {q : Prog E R β} {f : α → β}
    (hp : Runs (p >>= fun a => .ret (f a)) h q) :
    ∃ q', Runs p h q' ∧ q = (q' >>= fun a => .ret (f a)) := by
  induction p generalizing h with
  | ret a =>
    cases hp
    exact ⟨.ret a, .nil _, rfl⟩
  | call e k ih =>
    cases hp with
    | nil => exact ⟨.call e k, .nil _, rfl⟩
    | cons r hr =>
      obtain ⟨q', hq, he⟩ := ih r hr
      exact ⟨q', .cons r hq, he⟩

theorem Prog.returned_map (p : Prog E R α) (f : α → β) :
    (p >>= fun a => .ret (f a)).returned = p.returned := by
  cases p <;> rfl

theorem Prog.map_eq_ret {p : Prog E R α} {f : α → β} (hp : (p >>= fun a => .ret (f a)) = .ret b) :
    ∃ a, p = .ret a ∧ f a = b := by
  cases p with
  | ret a =>
    cases hp
    exact ⟨a, rfl, rfl⟩
  | call e k => cases hp

/-- A run of a sequence is in its first part, or has left it. -/
theorem runs_bind {p : Prog E R α} {f : α → Prog E R β} {q : Prog E R β}
    (hp : Runs (p >>= f) h q) : (∃ e k, Runs p h (.call e k) ∧ q = (.call e k >>= f)) ∨
      ∃ a h₁ h₂, Runs p h₁ (.ret a) ∧ Runs (f a) h₂ q ∧ h = h₁ ++ h₂ := by
  induction p generalizing h with
  | ret a => exact .inr ⟨a, [], h, .nil _, hp, rfl⟩
  | call e k ih =>
    cases hp with
    | nil => exact .inl ⟨e, k, .nil _, rfl⟩
    | cons r hr =>
      rcases ih r hr with ⟨e', k', hq, he⟩ | ⟨a, h₁, h₂, hk, hf, rfl⟩
      · exact .inl ⟨e', k', .cons r hq, he⟩
      · exact .inr ⟨a, _, h₂, .cons r hk, hf, rfl⟩

/-- The replies determine what is left of a program. -/
theorem Runs.unique (hp : Runs p h q) (hp' : Runs p h q') : q = q' := by
  induction hp with
  | nil =>
    cases hp' with
    | nil => rfl
  | cons r _ ih =>
    cases hp' with
    | cons _ hr => exact ih hr

/-- Every run can be continued until the program returns, when every call can get some reply. -/
theorem Runs.complete [∀ e, Nonempty (R e)] (p : Prog E R α) : ∃ h a, Runs p h (.ret a) := by
  induction p with
  | ret a => exact ⟨[], a, .nil _⟩
  | call e k ih =>
    obtain ⟨r⟩ : Nonempty (R e) := inferInstance
    obtain ⟨h, a, hr⟩ := ih r
    exact ⟨⟨e, r⟩ :: h, a, .cons r hr⟩

theorem Exec.runs (hp : Exec step s p h q s') : Runs p h q := by
  induction hp with
  | nil => exact .nil _
  | cons _ _ ih => exact .cons _ ih

/-- A run whose calls leave the state alone. -/
theorem Runs.exec_still (hp : Runs p h q) (hs : ∀ ev ∈ h, step s ev.call ev.reply s) :
    Exec step s p h q s := by
  induction hp with
  | nil => exact .nil _ _
  | @cons e h q k r _ ih =>
    have hfirst := hs ⟨e, r⟩ (List.mem_cons_self ..)
    exact .cons hfirst (ih fun ev hm => hs ev (List.mem_cons_of_mem _ hm))

theorem Exec.mono {step' : σ → (e : E) → R e → σ → Prop}
    (hs : ∀ s e r s', step s e r s' → step' s e r s') (hp : Exec step s p h q s') :
    Exec step' s p h q s' := by
  induction hp with
  | nil => exact .nil _ _
  | cons hst _ ih => exact .cons (hs _ _ _ _ hst) ih

theorem Exec.append (hp : Exec step s p h q s') (hq : Exec step s' q h' q' s'') :
    Exec step s p (h ++ h') q' s'' := by
  induction hp with
  | nil => exact hq
  | cons hs _ ih => exact .cons hs (ih hq)

theorem Exec.bind (hp : Exec step s p h q s') (f : α → Prog E R β) :
    Exec step s (p >>= f) h (q >>= f) s' := by
  induction hp with
  | nil => exact .nil _ _
  | cons hs _ ih => exact .cons hs ih

/-- An execution can be cut between any two of its events. -/
theorem Exec.split (hp : Exec step s p (h ++ h') q s') :
    ∃ p' s₁, Exec step s p h p' s₁ ∧ Exec step s₁ p' h' q s' := by
  induction h generalizing s p with
  | nil => exact ⟨p, s, .nil _ _, hp⟩
  | cons ev h ih =>
    cases hp with
    | cons hs hr =>
      obtain ⟨p', s₁, h₁, h₂⟩ := ih hr
      exact ⟨p', s₁, .cons hs h₁, h₂⟩

theorem exec_nil (hp : Exec step s p [] q s') : q = p ∧ s' = s := by
  cases hp
  exact ⟨rfl, rfl⟩

/-- The last event of an execution is a step of its own. -/
theorem exec_snoc {r : R e} (hp : Exec step s p (h ++ [⟨e, r⟩]) q s') :
    ∃ s₁, ∃ k : R e → Prog E R α, Exec step s p h (.call e k) s₁ ∧ step s₁ e r s' ∧ q = k r := by
  obtain ⟨p', s₁, h₁, h₂⟩ := hp.split
  cases h₂ with
  | cons hs hr =>
    obtain ⟨rfl, rfl⟩ := exec_nil hr
    exact ⟨s₁, _, h₁, hs, rfl⟩

theorem exec_ret (hp : Exec step s (.ret a) h q s') : h = [] ∧ q = .ret a ∧ s' = s := by
  cases hp
  exact ⟨rfl, rfl, rfl⟩

theorem exec_call_ret (hp : Exec step s (.call e k) h (.ret a) s') :
    ∃ r s₁ h', step s e r s₁ ∧ Exec step s₁ (k r) h' (.ret a) s' ∧ h = ⟨e, r⟩ :: h' := by
  cases hp with
  | cons hs hr => exact ⟨_, _, _, hs, hr, rfl⟩

/-- A returning run of a sequence is a returning run of its first part and then of the rest. -/
theorem exec_bind_ret {p : Prog E R α} {f : α → Prog E R β}
    (hp : Exec step s (p >>= f) h (.ret b) s') :
    ∃ a s₁ h₁ h₂, Exec step s p h₁ (.ret a) s₁ ∧ Exec step s₁ (f a) h₂ (.ret b) s' ∧
      h = h₁ ++ h₂ := by
  induction p generalizing s h with
  | ret a => exact ⟨a, s, [], h, .nil _ _, hp, rfl⟩
  | call e k ih =>
    obtain ⟨r, s₁, h', hs, hr, he⟩ := exec_call_ret hp
    obtain ⟨a, s₂, h₁, h₂, hk, hf, he'⟩ := ih r hr
    exact ⟨a, s₂, ⟨e, r⟩ :: h₁, h₂, .cons hs hk, hf, by rw [he, he', List.cons_append]⟩

end Interaction

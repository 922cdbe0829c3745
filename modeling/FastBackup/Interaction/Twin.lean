import FastBackup.Interaction.Prog
import Mathlib.Data.List.Forall2

namespace Interaction
set_option autoImplicit true

variable {E : Type} {R : E → Type} {V : E → E → Prop} {A : Event E R → Event E R → Prop}

/-- Two programs in step: while their replies are related by `A`, they make calls related by `V`,
and they return together, with results related by `Q`. -/
def Twin (V : E → E → Prop) (A : Event E R → Event E R → Prop) (Q : α → β → Prop) :
    Prog E R α → Prog E R β → Prop
  | .ret a, .ret b => Q a b
  | .call e k, .call e' k' => V e e' ∧ ∀ r r', A ⟨e, r⟩ ⟨e', r'⟩ → Twin V A Q (k r) (k' r')
  | _, _ => False

theorem Twin.call {Q : α → β → Prop} {k : R e → Prog E R α} {k' : R e' → Prog E R β}
    (hv : V e e') (hk : ∀ r r', A ⟨e, r⟩ ⟨e', r'⟩ → Twin V A Q (k r) (k' r')) :
    Twin V A Q (.call e k) (.call e' k') :=
  ⟨hv, hk⟩

theorem Twin.bind {Q : α → β → Prop} {Q' : α' → β' → Prop} {p : Prog E R α} {q : Prog E R β}
    {f : α → Prog E R α'} {g : β → Prog E R β'} (hp : Twin V A Q p q)
    (hf : ∀ a b, Q a b → Twin V A Q' (f a) (g b)) : Twin V A Q' (p >>= f) (q >>= g) := by
  induction p generalizing q with
  | ret a =>
    cases q with
    | ret b => exact hf a b hp
    | call => exact hp.elim
  | call e k ih =>
    cases q with
    | ret => exact hp.elim
    | call e' k' => exact ⟨hp.1, fun r r' ha => ih r (hp.2 r r' ha)⟩

theorem Twin.map {Q : α → β → Prop} {Q' : α' → β' → Prop} {p : Prog E R α} {q : Prog E R β}
    {f : α → α'} {g : β → β'} (hp : Twin V A Q p q) (hf : ∀ a b, Q a b → Q' (f a) (g b)) :
    Twin V A Q' (f <$> p) (g <$> q) :=
  hp.bind (f := fun a => .ret (f a)) (g := fun b => .ret (g b)) hf

/-- Two results that are both values, related by `Q`, or both errors, related by `D`. -/
def EndAlike (D : ε → ε' → Prop) (Q : α → β → Prop) : Except ε α → Except ε' β → Prop
  | .ok a, .ok b => Q a b
  | .error e, .error e' => D e e'
  | _, _ => False

theorem EndAlike.refl {D : ε → ε → Prop} {Q : α → α → Prop} (hd : ∀ e, D e e) (hq : ∀ a, Q a a)
    (r : Except ε α) : EndAlike D Q r r := by
  cases r with
  | ok a => exact hq a
  | error e => exact hd e

theorem EndAlike.cases {D : ε → ε' → Prop} {Q : α → β → Prop} (hr : EndAlike D Q r r') :
    (∃ a b, r = .ok a ∧ r' = .ok b ∧ Q a b) ∨ ∃ e e', r = .error e ∧ r' = .error e' ∧ D e e' := by
  cases r with
  | ok a =>
    cases r' with
    | ok b => exact .inl ⟨a, b, rfl, rfl, hr⟩
    | error => exact hr.elim
  | error e =>
    cases r' with
    | ok => exact hr.elim
    | error e' => exact .inr ⟨e, e', rfl, rfl, hr⟩

/-- The rule of sequence when the first parts may fail and the failures are passed on. -/
theorem Twin.bindE {D : ε → ε' → Prop} {Q : α → β → Prop} {Q' : α' → β' → Prop}
    {x : ExceptT ε (Prog E R) α} {x' : ExceptT ε' (Prog E R) β}
    {f : α → ExceptT ε (Prog E R) α'} {f' : β → ExceptT ε' (Prog E R) β'}
    (hx : Twin V A (EndAlike D Q) x.run x'.run)
    (hf : ∀ a b, Q a b → Twin V A (EndAlike D Q') (f a).run (f' b).run) :
    Twin V A (EndAlike D Q') (x >>= f).run (x' >>= f').run := by
  rw [ExceptT.run_bind, ExceptT.run_bind]
  refine hx.bind ?_
  intro r r' hr
  rcases hr.cases with ⟨a, b, rfl, rfl, hq⟩ | ⟨e, e', rfl, rfl, hd⟩
  · exact hf a b hq
  · exact hd

/-- Two runs with related replies make related calls, and what is left of the programs is in step
again. -/
theorem Twin.runs {Q : α → β → Prop} {p q : Prog E R α} {p' q' : Prog E R β}
    (ht : Twin V A Q p p') (hr : Runs p h q) (hr' : Runs p' h' q') (ha : List.Forall₂ A h h') :
    List.Forall₂ (fun ev ev' => V ev.call ev'.call ∧ A ev ev') h h' ∧ Twin V A Q q q' := by
  induction hr generalizing p' h' with
  | nil =>
    cases ha
    cases hr'
    exact ⟨.nil, ht⟩
  | cons r _ ih =>
    cases ha with
    | cons ha hrest =>
      cases hr' with
      | cons r' hr' =>
        obtain ⟨hall, hleft⟩ := ih (ht.2 r r' ha) hr' hrest
        exact ⟨.cons ⟨ht.1, ha⟩ hall, hleft⟩

/-- When every reply has a related one, every run of the first program has a related run of the
second one. -/
theorem Twin.follow {Q : α → β → Prop} {p q : Prog E R α} {p' : Prog E R β}
    (ht : Twin V A Q p p') (hr : Runs p h q)
    (hv : ∀ e e' r, V e e' → ∃ r' : R e', A ⟨e, r⟩ ⟨e', r'⟩) :
    ∃ h' q', Runs p' h' q' ∧ List.Forall₂ A h h' := by
  induction hr generalizing p' with
  | nil => exact ⟨[], p', .nil _, .nil⟩
  | @cons e h q k r _ ih =>
    cases p' with
    | ret => exact ht.elim
    | call e' k' =>
      obtain ⟨r', ha⟩ := hv e e' r ht.1
      obtain ⟨h', q', hr', hall⟩ := ih (ht.2 r r' ha)
      exact ⟨⟨e', r'⟩ :: h', q', .cons r' hr', .cons ha hall⟩

end Interaction

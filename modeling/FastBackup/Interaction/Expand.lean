import FastBackup.Interaction.Prog

namespace Interaction
set_option autoImplicit true

variable {E E' : Type} {R : E → Type} {R' : E' → Type} {f : (e : E) → Prog E' R' (R e)}

/-- The program with each of its calls carried out by `f`. -/
def Prog.expand (f : (e : E) → Prog E' R' (R e)) : Prog E R α → Prog E' R' α
  | .ret a => .ret a
  | .call e k => f e >>= fun r => (k r).expand f

/-- The calls `h'` carry out those of `h` one after the other. -/
inductive Carries (f : (e : E) → Prog E' R' (R e)) :
    List (Event E R) → List (Event E' R') → Prop where
  | nil : Carries f [] []
  | cons (hr : Runs (f e) h₁ (.ret r)) (hh : Carries f h h') :
      Carries f (⟨e, r⟩ :: h) (h₁ ++ h')

theorem Carries.runs {p q : Prog E R α} (hc : Carries f h h') (hr : Runs p h q) :
    Runs (p.expand f) h' (q.expand f) := by
  induction hc generalizing p with
  | nil =>
    cases hr
    exact .nil _
  | cons hf _ ih =>
    cases hr with
    | cons r hr => exact (hf.bind _).append (ih hr)

/-- A run of an expanded program has carried out some calls of the program and is in the middle of
the next one, if the program has not returned. -/
theorem runs_expand {p : Prog E R α} {q' : Prog E' R' α} (hr : Runs (p.expand f) h' q') :
    (∃ h a, Runs p h (.ret a) ∧ Carries f h h' ∧ q' = .ret a) ∨
    ∃ h h₁ h₂ e k e' k', Runs p h (.call e k) ∧ Carries f h h₁ ∧ Runs (f e) h₂ (.call e' k') ∧
      h' = h₁ ++ h₂ ∧ q' = .call e' fun r => k' r >>= fun r => (k r).expand f := by
  induction p generalizing h' with
  | ret a =>
    obtain ⟨rfl, rfl⟩ := runs_ret hr
    exact .inl ⟨[], a, .nil _, .nil, rfl⟩
  | call e k ih =>
    rcases runs_bind hr with ⟨e', k', hf, hq⟩ | ⟨r, h₁, h₂, hf, hrest, rfl⟩
    · exact .inr ⟨[], [], h', e, k, e', k', .nil _, .nil, hf, rfl, hq⟩
    · rcases ih r hrest with ⟨h, a, hk, hc, rfl⟩ |
        ⟨h, h₃, h₄, e₁, k₁, e', k', hk, hc, hpart, rfl, hq⟩
      · exact .inl ⟨_, a, .cons r hk, .cons hf hc, rfl⟩
      · exact .inr ⟨_, h₁ ++ h₃, h₄, e₁, k₁, e', k', .cons r hk, .cons hf hc, hpart,
          (List.append_assoc ..).symm, hq⟩

end Interaction

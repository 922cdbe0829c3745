import FastBackup.Interaction.Pool

namespace Interaction
set_option autoImplicit true

variable {σ E : Type} {R : E → Type} {O α : Type}

/-- The pool after all tasks are lost at once, without their destructors. -/
def Pool.restart (crash : σ → σ) (c : Pool σ E R O α) : Pool σ E R O α :=
  ⟨crash c.world, fun _ => none, []⟩

/-- A step of the pool, or a restart. -/
inductive LifeStep (M : Machine σ E R) (body : O → Prog E R α) (crash : σ → σ) :
    Pool σ E R O α → Pool σ E R O α → Prop where
  | step (hs : Step M body c c') : LifeStep M body crash c c'
  | restart (c : Pool σ E R O α) : LifeStep M body crash c (c.restart crash)

/-- Runs with any number of restarts between them. -/
def Life (M : Machine σ E R) (body : O → Prog E R α) (crash : σ → σ) :
    Pool σ E R O α → Pool σ E R O α → Prop :=
  Relation.ReflTransGen (LifeStep M body crash)

variable {M : Machine σ E R} {body : O → Prog E R α} {crash : σ → σ} {c c' : Pool σ E R O α}

theorem Steps.life (hr : Steps M body c c') : Life M body crash c c' := by
  induction hr with
  | refl => exact .refl
  | tail _ hs ih => exact ih.tail (.step hs)

/-- What a run keeps, and a restart keeps, holds in every life; its last part is a run from a pool
that was initial. -/
theorem life_rule (Init : Pool σ E R O α → Prop) (I : σ → Prop)
    (hinit : ∀ c : Pool σ E R O α, Init (c.restart crash)) (hcrash : ∀ w, I w → I (crash w))
    (hstep : ∀ c₀ c c', Init c₀ → Steps M body c₀ c → Step M body c c' → I c.world → I c'.world)
    (hc : Init c) (hi : I c.world) (hl : Life M body crash c c') :
    ∃ c₁, Init c₁ ∧ I c₁.world ∧ Steps M body c₁ c' ∧ I c'.world := by
  induction hl with
  | refl => exact ⟨c, hc, hi, .refl, hi⟩
  | tail _ hs ih =>
    obtain ⟨c₁, hc₁, hi₁, hr, hi'⟩ := ih
    cases hs with
    | step hs => exact ⟨c₁, hc₁, hi₁, hr.tail hs, hstep _ _ _ hc₁ hr hs hi'⟩
    | restart => exact ⟨_, hinit _, hcrash _ hi', .refl, hcrash _ hi'⟩

end Interaction

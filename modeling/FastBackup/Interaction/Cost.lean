import FastBackup.Interaction.Prog
import Mathlib.Algebra.GroupWithZero.Nat
import Mathlib.Algebra.Order.Group.Nat

namespace Interaction
set_option autoImplicit true

variable {E : Type} {R : E → Type} {cost : E → Nat}

/-- What the calls of a run have cost. -/
def total (cost : E → Nat) (h : List (Event E R)) : Nat := (h.map fun ev => cost ev.call).sum

/-- The cost of the call that a program waits for. -/
def Prog.due (cost : E → Nat) : Prog E R α → Nat
  | .ret _ => 0
  | .call e _ => cost e

/-- No run of the program costs more than `n`, the call in progress included. -/
def Within (cost : E → Nat) (n : Nat) (p : Prog E R α) : Prop :=
  ∀ h q, Runs p h q → total cost h + q.due cost ≤ n

/-- The worst of the program's runs costs `n`. -/
structure Worst (cost : E → Nat) (n : Nat) (p : Prog E R α) : Prop where
  within : Within cost n p
  attained : ∃ h a, Runs p h (.ret a) ∧ total cost h = n

theorem total_append (h h' : List (Event E R)) :
    total cost (h ++ h') = total cost h + total cost h' := by
  rw [total, List.map_append, List.sum_append, total, total]

theorem total_singleton (ev : Event E R) : total cost [ev] = cost ev.call := by
  rw [total, List.map_singleton, List.sum_singleton]

theorem Within.mono {p : Prog E R α} (hp : Within cost n p) (hn : n ≤ n') : Within cost n' p :=
  fun h q hr => (hp h q hr).trans hn

theorem within_ret (a : α) : Within cost n (.ret a : Prog E R α) := by
  intro h q hr
  obtain ⟨rfl, rfl⟩ := runs_ret hr
  exact Nat.zero_le n

theorem within_call {k : R e → Prog E R α} (hk : ∀ r, Within cost n (k r)) :
    Within cost (cost e + n) (.call e k) := by
  intro h q hr
  cases hr with
  | nil =>
    have hdue : total cost ([] : List (Event E R)) + (Prog.call e k).due cost = cost e :=
      Nat.zero_add _
    rw [hdue]
    exact Nat.le_add_right ..
  | @cons _ h _ _ r hr =>
    have hlater := hk r _ _ hr
    have htotal : total cost (⟨e, r⟩ :: h) = cost e + total cost h := rfl
    omega

/-- The rule of sequence. -/
theorem Within.bind {p : Prog E R α} {f : α → Prog E R β} (hp : Within cost n p)
    (hf : ∀ a, Within cost m (f a)) : Within cost (n + m) (p >>= f) := by
  intro h q hr
  rcases runs_bind hr with ⟨e, k, hfirst, rfl⟩ | ⟨a, h₁, h₂, hfirst, hrest, rfl⟩
  · have hdue : (Prog.call e k >>= f).due cost = (Prog.call e k).due cost := rfl
    have hn := hp _ _ hfirst
    omega
  · have hn : total cost h₁ + 0 ≤ n := hp _ _ hfirst
    have hm := hf a _ _ hrest
    rw [total_append]
    omega

theorem Worst.map {p : Prog E R α} (hp : Worst cost n p) (f : α → β) :
    Worst cost n (p >>= fun a => .ret (f a)) := by
  obtain ⟨hw, h, a, hr, ht⟩ := hp
  exact ⟨hw.bind (m := 0) fun a => within_ret (f a), h, f a, hr.bind _, ht⟩

end Interaction

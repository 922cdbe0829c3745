import Mathlib.Algebra.Group.Nat.Defs
import Mathlib.Order.Defs.LinearOrder

namespace Decimal
set_option autoImplicit true

/-- The decimal digits of `n`, with zeros before them up to the width. -/
def fixed (width n : Nat) : List Char :=
  List.replicate (width - (Nat.toDigits 10 n).length) '0' ++ Nat.toDigits 10 n

def value (cs : List Char) : Nat := Nat.ofDigitChars 10 cs 0

theorem value_cons (c : Char) (cs : List Char) :
    value (c :: cs) = 10 ^ cs.length * (c.toNat - '0'.toNat) + value cs := by
  rw [value, Nat.ofDigitChars_cons, Nat.ofDigitChars_eq_ofDigitChars_zero, Nat.mul_zero,
    Nat.zero_add]
  rfl

theorem value_zeros (k : Nat) (cs : List Char) : value (List.replicate k '0' ++ cs) = value cs := by
  induction k with
  | zero => rfl
  | succ k ih =>
    rw [List.replicate_succ, List.cons_append, value_cons, ih, Nat.sub_self, Nat.mul_zero,
      Nat.zero_add]

theorem value_fixed (width n : Nat) : value (fixed width n) = n := by
  rw [fixed, value_zeros]
  exact Nat.ofDigitChars_ten_toDigits

theorem fixed_injective (h : fixed width n = fixed width m) : n = m := by
  rw [← value_fixed width n, h, value_fixed]

theorem isDigit_fixed (hc : c ∈ fixed width n) : c.isDigit = true := by
  rcases List.mem_append.1 hc with hc | hc
  · rw [List.eq_of_mem_replicate hc]
    rfl
  · exact Nat.isDigit_of_mem_toDigits (by decide) (by decide) hc

theorem length_fixed (hw : 0 < width) (hn : n < 10 ^ width) : (fixed width n).length = width := by
  have hlen := (Nat.length_toDigits_le_iff (by decide) hw).2 hn
  rw [fixed, List.length_append, List.length_replicate]
  omega

theorem value_lt {cs : List Char} (hd : ∀ c ∈ cs, c.isDigit = true) :
    value cs < 10 ^ cs.length := by
  induction cs with
  | nil => exact Nat.one_pos
  | cons c cs ih =>
    have hlast := ih fun c hc => hd c (List.mem_cons_of_mem _ hc)
    have hc := Char.isDigit_iff_toNat.1 (hd c (List.mem_cons_self ..))
    have hle : 10 ^ cs.length * (c.toNat - '0'.toNat) ≤ 10 ^ cs.length * 9 :=
      Nat.mul_le_mul_left _ (Nat.sub_le_iff_le_add.2 hc.2)
    rw [value_cons, List.length_cons, Nat.pow_succ]
    omega

/-- Digits of one length compare like their values. -/
theorem lt_of_value_lt {a b : List Char} (ha : ∀ c ∈ a, c.isDigit = true)
    (hb : ∀ c ∈ b, c.isDigit = true) (hl : a.length = b.length) (hv : value a < value b) :
    a < b := by
  induction a generalizing b with
  | nil =>
    rw [List.eq_nil_of_length_eq_zero hl.symm] at hv
    exact absurd hv (Nat.lt_irrefl _)
  | cons c a ih =>
    cases b with
    | nil => cases hl
    | cons d b =>
      have hlen : a.length = b.length := Nat.succ.inj hl
      have ha' := fun c hc => ha c (List.mem_cons_of_mem _ hc)
      have hb' := fun c hc => hb c (List.mem_cons_of_mem _ hc)
      rw [List.cons_lt_cons_iff]
      rw [value_cons, value_cons, hlen] at hv
      rcases Nat.lt_trichotomy c.toNat d.toNat with hcd | hcd | hcd
      · exact .inl hcd
      · rw [hcd] at hv
        exact .inr ⟨Char.toNat_inj.1 hcd, ih ha' hb' hlen (Nat.lt_of_add_lt_add_left hv)⟩
      · exfalso
        have hd := (Char.isDigit_iff_toNat.1 (hb d (List.mem_cons_self ..))).1
        have hstep : d.toNat - '0'.toNat + 1 ≤ c.toNat - '0'.toNat := by omega
        have hmul := Nat.mul_le_mul_left (10 ^ b.length) hstep
        have hlast := value_lt hb'
        rw [Nat.mul_add, Nat.mul_one] at hmul
        omega

theorem append_lt_append (hl : a.length = b.length) (h : a < b ∨ a = b ∧ x < y) :
    (a ++ x : List Char) < b ++ y := by
  induction a generalizing b with
  | nil =>
    rw [List.eq_nil_of_length_eq_zero hl.symm] at h ⊢
    rcases h with h | ⟨_, h⟩
    · exact absurd h (List.lt_irrefl _)
    · exact h
  | cons c a ih =>
    cases b with
    | nil => cases hl
    | cons d b =>
      rw [List.cons_append, List.cons_append, List.cons_lt_cons_iff]
      rw [List.cons_lt_cons_iff, List.cons.injEq] at h
      rcases h with (h | ⟨rfl, h⟩) | ⟨⟨rfl, rfl⟩, h⟩
      · exact .inl h
      · exact .inr ⟨rfl, ih (Nat.succ.inj hl) (.inl h)⟩
      · exact .inr ⟨rfl, ih rfl (.inr ⟨rfl, h⟩)⟩

/-- Two texts that start with a number of the same width. -/
theorem fixed_append_lt (hw : 0 < width) (hn : n < 10 ^ width) (hm : m < 10 ^ width)
    (h : n < m ∨ n = m ∧ x < y) : fixed width n ++ x < fixed width m ++ y := by
  have hl : (fixed width n).length = (fixed width m).length := by
    rw [length_fixed hw hn, length_fixed hw hm]
  apply append_lt_append hl
  rcases h with h | ⟨rfl, h⟩
  · refine .inl (lt_of_value_lt (fun _ => isDigit_fixed) (fun _ => isDigit_fixed) hl ?_)
    rwa [value_fixed, value_fixed]
  · exact .inr ⟨rfl, h⟩

theorem fixed_lt (hw : 0 < width) (hn : n < 10 ^ width) (hm : m < 10 ^ width) (h : n < m) :
    fixed width n < fixed width m := by
  have happ := fixed_append_lt hw hn hm (x := []) (y := []) (.inl h)
  rwa [List.append_nil, List.append_nil] at happ

end Decimal

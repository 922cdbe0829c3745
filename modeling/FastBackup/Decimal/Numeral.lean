import FastBackup.Decimal.Fixed

namespace Decimal
set_option autoImplicit true

def Digits (cs : List Char) : Prop := ∀ c ∈ cs, c.isDigit = true

theorem digits_nil : Digits [] := fun _ hc => absurd hc List.not_mem_nil

theorem digits_cons {cs : List Char} : Digits (c :: cs) ↔ c.isDigit = true ∧ Digits cs :=
  List.forall_mem_cons

/-- A decimal numeral, with a sign or without. -/
inductive Numeral (signed : Bool) : List Char → Int → Prop where
  | plain (hd : Digits ds) (hn : ds ≠ []) : Numeral signed ds (value ds)
  | plus (hd : Digits ds) (hn : ds ≠ []) : Numeral signed ('+' :: ds) (value ds)
  | minus (hs : signed = true) (hd : Digits ds) (hn : ds ≠ []) :
      Numeral signed ('-' :: ds) (-(value ds : Int))

theorem not_digits (hc : c.isDigit = false) : ¬ Digits (c :: cs) := by
  intro hd
  rw [(digits_cons.1 hd).1] at hc
  cases hc

theorem numeral_plus {cs : List Char} :
    Numeral signed ('+' :: cs) n ↔ Digits cs ∧ cs ≠ [] ∧ n = value cs := by
  constructor
  · intro hn
    cases hn with
    | plain hd => exact absurd hd (not_digits rfl)
    | plus hd hne => exact ⟨hd, hne, rfl⟩
  · rintro ⟨hd, hne, rfl⟩
    exact .plus hd hne

theorem numeral_minus {cs : List Char} : Numeral signed ('-' :: cs) n ↔
    signed = true ∧ Digits cs ∧ cs ≠ [] ∧ n = -(value cs : Int) := by
  constructor
  · intro hn
    cases hn with
    | plain hd => exact absurd hd (not_digits rfl)
    | minus hs hd hne => exact ⟨hs, hd, hne, rfl⟩
  · rintro ⟨hs, hd, hne, rfl⟩
    exact .minus hs hd hne

theorem numeral_plain {cs : List Char} (hp : ∀ ds, cs ≠ '+' :: ds) (hm : ∀ ds, cs ≠ '-' :: ds) :
    Numeral signed cs n ↔ Digits cs ∧ cs ≠ [] ∧ n = value cs := by
  constructor
  · intro hn
    cases hn with
    | plain hd hne => exact ⟨hd, hne, rfl⟩
    | plus => exact absurd rfl (hp _)
    | minus => exact absurd rfl (hm _)
  · rintro ⟨hd, hne, rfl⟩
    exact .plain hd hne

theorem digits_toDigits (n : Nat) : Digits (Nat.toDigits 10 n) := by
  intro c hc
  exact Nat.isDigit_of_mem_toDigits (by decide) (by decide) hc

/-- What is printed for `n` reads as `n`. -/
theorem numeral_toString (signed : Bool) (n : Nat) : Numeral signed (toString n).toList n := by
  have hv : value (Nat.toDigits 10 n) = n := Nat.ofDigitChars_ten_toDigits
  have hp : Numeral signed (Nat.toDigits 10 n) (value (Nat.toDigits 10 n)) :=
    .plain (digits_toDigits n) Nat.toDigits_ne_nil
  rw [hv, ← Nat.toList_repr] at hp
  exact hp

/-- More digits make no number smaller. -/
theorem le_ofDigitChars (cs : List Char) (n : Nat) : n ≤ Nat.ofDigitChars 10 cs n := by
  rw [Nat.ofDigitChars_eq_ofDigitChars_zero]
  have hone : 1 * n ≤ 10 ^ cs.length * n := Nat.mul_le_mul_right n (Nat.one_le_pow _ _ (by decide))
  omega

end Decimal

import FastBackup.Utf8.Boundary
import Mathlib.Data.List.DropRight

namespace FastBackup
set_option autoImplicit true

/-- `char::is_whitespace`: the characters with the Unicode property `White_Space`. -/
def isWhitespace (c : Char) : Bool :=
  let n := c.toNat
  (0x09 ≤ n ∧ n ≤ 0x0D) ∨ n = 0x20 ∨ n = 0x85 ∨ n = 0xA0 ∨ n = 0x1680 ∨
    (0x2000 ≤ n ∧ n ≤ 0x200A) ∨ n = 0x2028 ∨ n = 0x2029 ∨ n = 0x202F ∨ n = 0x205F ∨ n = 0x3000

/-- `str::trim_end`. -/
def trimEnd (s : String) : String := String.ofList (s.toList.rdropWhile isWhitespace)

/-- `str::is_char_boundary`. -/
def isCharBoundary (s : String) (index : Nat) : Bool :=
  Utf8.isBoundary s.toByteArray.data.toList index

/-- `&s[start..]`, which panics where no character starts. -/
def sliceFrom (s : String) (start : Nat) : Option String :=
  if isCharBoundary s start then String.fromUTF8? (s.toByteArray.data.toList.drop start).toByteArray
  else none

/-- The loop of `tail`, or `none` if it has not ended after `fuel` tests. -/
def tailStart (s : String) : (fuel start : Nat) → Option Nat
  | 0, _ => none
  | fuel + 1, start =>
    if isCharBoundary s start then some start else tailStart s fuel (start + 1)

/-- Last `limit` bytes of `s`, cut on a char boundary. It is `none` if the loop has not ended
after `fuel` tests, or if the slice panics. -/
def tail (fuel : Nat) (s : String) (limit : Nat) : Option String :=
  let s := trimEnd s
  (tailStart s fuel (s.utf8ByteSize - limit)).bind (sliceFrom s)

theorem isCharBoundary_append (p r : String) : isCharBoundary (p ++ r) p.utf8ByteSize = true := by
  rw [isCharBoundary, Utf8.data_toByteArray, String.toList_append, ← Utf8.length_encode_toList]
  exact Utf8.isBoundary_append p.toList r.toList

theorem sliceFrom_append (p r : String) : sliceFrom (p ++ r) p.utf8ByteSize = some r := by
  rw [sliceFrom, if_pos (isCharBoundary_append p r), Utf8.data_toByteArray, String.toList_append,
    Utf8.encode_append, ← Utf8.length_encode_toList, List.drop_left, Utf8.fromUTF8_encode,
    String.ofList_toList]

/-- From every index of a text a character starts, or the text ends, within three bytes. -/
theorem exists_charBoundary (s : String) (i : Nat) (hi : i ≤ s.utf8ByteSize) :
    ∃ p r, s = p ++ r ∧ i ≤ p.utf8ByteSize ∧ p.utf8ByteSize ≤ i + 3 ∧
      ∀ j, i ≤ j → j < p.utf8ByteSize → isCharBoundary s j = false := by
  rw [← Utf8.length_encode_toList] at hi
  obtain ⟨p, r, hs, hlo, hhi, hnone⟩ := Utf8.exists_next s.toList i hi
  have hp : (Utf8.encode p).length = (String.ofList p).utf8ByteSize := by
    rw [← Utf8.length_encode_toList, String.toList_ofList]
  rw [hp] at hlo hhi hnone
  refine ⟨String.ofList p, String.ofList r, ?_, hlo, hhi, ?_⟩
  · rw [← String.ofList_append, ← hs, String.ofList_toList]
  · intro j hj hj'
    rw [isCharBoundary, Utf8.data_toByteArray]
    exact hnone j hj hj'

/-- The loop stops at the first boundary, after as many steps as there are bytes to it. -/
theorem tailStart_eq (s : String) (hstop : isCharBoundary s stop = true)
    (hnone : ∀ j, start ≤ j → j < stop → isCharBoundary s j = false) (hle : start ≤ stop)
    (hfuel : stop < start + fuel) : tailStart s fuel start = some stop := by
  induction fuel generalizing start with
  | zero => omega
  | succ fuel ih =>
    rw [tailStart]
    by_cases heq : start = stop
    · rw [heq, if_pos hstop]
    · have hno : isCharBoundary s start = false := hnone start (Nat.le_refl _) (by omega)
      rw [hno, if_neg Bool.false_ne_true]
      refine ih ?_ (by omega) (by omega)
      intro j hj hj'
      exact hnone j (by omega) hj'

/-- `r` is the longest end of `t` that starts on a character boundary and has at most `limit`
bytes. -/
structure LongestEnd (t : String) (limit : Nat) (r : String) : Prop where
  isEnd : ∃ p, t = p ++ r
  fits : r.utf8ByteSize ≤ limit
  longest : ∀ p' r', t = p' ++ r' → r'.utf8ByteSize ≤ limit → r'.utf8ByteSize ≤ r.utf8ByteSize

theorem LongestEnd.eq_of_fits (h : LongestEnd t limit r) (ht : t.utf8ByteSize ≤ limit) :
    r = t := by
  obtain ⟨p, rfl⟩ := h.isEnd
  have hle := h.longest "" (p ++ r) String.empty_append.symm ht
  rw [String.utf8ByteSize_append] at hle
  have hp : p = "" := String.utf8ByteSize_eq_zero_iff.mp (by omega)
  rw [hp, String.empty_append]

/-- The loop of `tail` ends inside the trimmed text and the slice does not panic: what is left is
the longest end that fits, whole if the text fits, and otherwise at most three bytes shorter
than the limit. -/
theorem tail_longest (s : String) (limit : Nat) : ∃ start r,
    start ≤ (trimEnd s).utf8ByteSize ∧
    (∀ fuel, tailStart (trimEnd s) (fuel + 4) ((trimEnd s).utf8ByteSize - limit) = some start) ∧
    (∀ fuel, tail (fuel + 4) s limit = some r) ∧
    LongestEnd (trimEnd s) limit r ∧
    ((trimEnd s).utf8ByteSize ≤ limit → r = trimEnd s) ∧
    (limit ≤ (trimEnd s).utf8ByteSize → limit ≤ r.utf8ByteSize + 3) := by
  obtain ⟨p, r, ht, hlo, hhi, hnone⟩ :=
    exists_charBoundary (trimEnd s) ((trimEnd s).utf8ByteSize - limit) (Nat.sub_le _ _)
  have hsize : (trimEnd s).utf8ByteSize = p.utf8ByteSize + r.utf8ByteSize := by
    rw [ht, String.utf8ByteSize_append]
  have hstart (fuel : Nat) : tailStart (trimEnd s) (fuel + 4)
      ((trimEnd s).utf8ByteSize - limit) = some p.utf8ByteSize := by
    apply tailStart_eq (trimEnd s) ?_ hnone hlo (by omega)
    rw [ht]
    exact isCharBoundary_append p r
  have hend : LongestEnd (trimEnd s) limit r := by
    refine ⟨⟨p, ht⟩, by omega, ?_⟩
    -- A longer end that fits would start on a boundary that the loop has passed over.
    intro p' r' ht' hfits
    have hsize' : (trimEnd s).utf8ByteSize = p'.utf8ByteSize + r'.utf8ByteSize := by
      rw [ht', String.utf8ByteSize_append]
    by_contra hlt
    have hno := hnone p'.utf8ByteSize (by omega) (by omega)
    rw [ht', isCharBoundary_append p' r'] at hno
    cases hno
  refine ⟨p.utf8ByteSize, r, by omega, hstart, ?_, hend, hend.eq_of_fits, by omega⟩
  intro fuel
  rw [tail, hstart, Option.bind_some, ht]
  exact sliceFrom_append p r

example : tail 4 "ыыы" 3 = some "ы" := by decide

end FastBackup

import Mathlib.Data.List.Basic

namespace Utf8
set_option autoImplicit true

/-- The bytes of a text. -/
def encode (cs : List Char) : List UInt8 := cs.flatMap String.utf8EncodeChar

/-- A byte inside a character: as an `i8` it is less than `-0x40`. -/
def continues (b : UInt8) : Bool := 0x80 ≤ b ∧ b < 0xC0

/-- Whether a character starts, or the text ends, at an index. -/
def isBoundary (bs : List UInt8) (index : Nat) : Bool :=
  if index = 0 then true
  else match bs[index]? with
    | none => index = bs.length
    | some b => !continues b

theorem encode_cons (c : Char) (cs : List Char) :
    encode (c :: cs) = String.utf8EncodeChar c ++ encode cs := rfl

theorem encode_append (cs cs' : List Char) : encode (cs ++ cs') = encode cs ++ encode cs' :=
  List.flatMap_append

theorem data_toByteArray (s : String) : s.toByteArray.data.toList = encode s.toList := by
  rw [← String.utf8Encode_toList, List.utf8Encode, List.data_toByteArray]
  rfl

theorem length_encode_toList (s : String) : (encode s.toList).length = s.utf8ByteSize := by
  rw [← data_toByteArray, Array.length_toList, ← String.size_toByteArray]
  rfl

theorem fromUTF8_encode (cs : List Char) :
    String.fromUTF8? (encode cs).toByteArray = some (String.ofList cs) := by
  have hvalid : (encode cs).toByteArray.IsValidUTF8 := ⟨cs, rfl⟩
  rw [String.fromUTF8?, dif_pos hvalid]
  rfl

theorem continues_ofNat (h : n < 256) :
    continues (UInt8.ofNat n) = decide (128 ≤ n ∧ n < 192) := by
  have hn : (UInt8.ofNat n).toNat = n := by
    rw [UInt8.toNat_ofNat']
    exact Nat.mod_eq_of_lt h
  simp only [continues, UInt8.le_iff_toNat_le, UInt8.lt_iff_toNat_lt, hn]
  rfl

/-- A character is a byte that starts it and at most three that continue it. -/
theorem utf8EncodeChar_layout (c : Char) : ∃ b rest, String.utf8EncodeChar c = b :: rest ∧
    continues b = false ∧ (∀ b' ∈ rest, continues b' = true) ∧ rest.length ≤ 3 := by
  have hlead {n : Nat} (hlt : n < 256) (hn : n < 128 ∨ 192 ≤ n) :
      continues (UInt8.ofNat n) = false := by
    rw [continues_ofNat hlt, decide_eq_false_iff_not]
    omega
  have hcont (n : Nat) : continues (UInt8.ofNat (n % 64 + 128)) = true := by
    rw [continues_ofNat (by omega), decide_eq_true_eq]
    omega
  simp only [String.utf8EncodeChar]
  generalize c.val.toNat = v
  split
  · exact ⟨_, [], rfl, hlead (by omega) (by omega), nofun, by simp⟩
  split
  · refine ⟨_, _, rfl, hlead (by omega) (by omega), ?_, by simp⟩
    exact List.forall_mem_singleton.mpr (hcont _)
  split
  · refine ⟨_, _, rfl, hlead (by omega) (by omega), ?_, by simp⟩
    exact List.forall_mem_cons.mpr ⟨hcont _, List.forall_mem_singleton.mpr (hcont _)⟩
  · refine ⟨_, _, rfl, hlead (by omega) (by omega), ?_, by simp⟩
    exact List.forall_mem_cons.mpr ⟨hcont _,
      List.forall_mem_cons.mpr ⟨hcont _, List.forall_mem_singleton.mpr (hcont _)⟩⟩

theorem length_utf8EncodeChar_le (c : Char) : (String.utf8EncodeChar c).length ≤ 4 := by
  obtain ⟨b, rest, hc, -, -, hlen⟩ := utf8EncodeChar_layout c
  rw [hc, List.length_cons]
  omega

/-- Where a text is cut between two characters there is a boundary. -/
theorem isBoundary_append (p r : List Char) :
    isBoundary (encode (p ++ r)) (encode p).length = true := by
  unfold isBoundary
  split
  · rfl
  cases r with
  | nil =>
    rw [List.append_nil, List.getElem?_eq_none (Nat.le_refl _)]
    exact decide_eq_true rfl
  | cons c r =>
    obtain ⟨b, rest, hc, hb, -, -⟩ := utf8EncodeChar_layout c
    have hget : (encode (p ++ c :: r))[(encode p).length]? = some b := by
      rw [encode_append, encode_cons, hc, List.getElem?_append_right (Nat.le_refl _), Nat.sub_self]
      rfl
    rw [hget]
    simp only [hb, Bool.not_false]

/-- There is none inside a character. -/
theorem isBoundary_inside (p : List Char) (c : Char) (r : List Char)
    (hlo : (encode p).length < i) (hhi : i < (encode (p ++ [c])).length) :
    isBoundary (encode (p ++ c :: r)) i = false := by
  obtain ⟨b, rest, hc, -, hrest, -⟩ := utf8EncodeChar_layout c
  obtain ⟨k, rfl⟩ : ∃ k, i = (encode p).length + (k + 1) :=
    ⟨i - (encode p).length - 1, by omega⟩
  have hk : k < rest.length := by
    rw [encode_append, List.length_append, encode_cons, hc] at hhi
    simp only [encode, List.flatMap_nil, List.append_nil, List.length_cons] at hhi
    omega
  have hget : (encode (p ++ c :: r))[(encode p).length + (k + 1)]? = some rest[k] := by
    rw [encode_append, encode_cons, hc, List.getElem?_append_right (by omega),
      Nat.add_sub_cancel_left, List.cons_append, List.getElem?_cons_succ,
      List.getElem?_append_left hk, List.getElem?_eq_getElem hk]
  rw [isBoundary, if_neg (by omega), hget]
  simp only [hrest _ (List.getElem_mem hk), Bool.not_true]

/-- An index of a text is between two characters or inside one. -/
theorem index_cases (cs : List Char) (i : Nat) (hi : i ≤ (encode cs).length) :
    (∃ p r, cs = p ++ r ∧ (encode p).length = i) ∨
    (∃ p c r, cs = p ++ c :: r ∧ (encode p).length < i ∧ i < (encode (p ++ [c])).length) := by
  induction cs generalizing i with
  | nil => exact .inl ⟨[], [], rfl, (Nat.le_zero.mp hi).symm⟩
  | cons c cs ih =>
    have hcons (p : List Char) :
        (encode (c :: p)).length = (String.utf8EncodeChar c).length + (encode p).length := by
      rw [encode_cons, List.length_append]
    rw [hcons] at hi
    by_cases h0 : i = 0
    · exact .inl ⟨[], c :: cs, rfl, h0.symm⟩
    by_cases hin : i < (String.utf8EncodeChar c).length
    · refine .inr ⟨[], c, cs, rfl, Nat.pos_of_ne_zero h0, ?_⟩
      rw [List.nil_append, hcons]
      omega
    obtain ⟨p, r, rfl, hp⟩ | ⟨p, d, r, rfl, hlo, hhi⟩ :=
      ih (i - (String.utf8EncodeChar c).length) (by omega)
    · refine .inl ⟨c :: p, r, rfl, ?_⟩
      rw [hcons]
      omega
    · refine .inr ⟨c :: p, d, r, rfl, ?_, ?_⟩
      · rw [hcons]
        omega
      · rw [List.cons_append, hcons]
        omega

/-- From every index there is a boundary within three bytes. -/
theorem exists_next (cs : List Char) (i : Nat) (hi : i ≤ (encode cs).length) :
    ∃ p r, cs = p ++ r ∧ i ≤ (encode p).length ∧ (encode p).length ≤ i + 3 ∧
      ∀ j, i ≤ j → j < (encode p).length → isBoundary (encode cs) j = false := by
  obtain ⟨p, r, rfl, rfl⟩ | ⟨p, c, r, rfl, hlo, hhi⟩ := index_cases cs i hi
  · refine ⟨p, r, rfl, Nat.le_refl _, Nat.le_add_right _ _, ?_⟩
    intro j hj hj'
    omega
  · refine ⟨p ++ [c], r, by simp, by omega, ?_, ?_⟩
    · have hc : (encode [c]).length ≤ 4 := by
        rw [encode_cons, List.length_append]
        exact length_utf8EncodeChar_le c
      rw [encode_append, List.length_append]
      omega
    · intro j hj hj'
      exact isBoundary_inside p c r (by omega) hj'

end Utf8

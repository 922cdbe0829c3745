import FastBackup.Utf8.Boundary
import Mathlib.Data.List.DropRight

namespace Url
set_option autoImplicit true

/-- The characters of a path that are percent-encoded. -/
def escaped (c : Char) : Bool :=
  c ≤ ' ' || '~' < c || c ∈ ['"', '#', '<', '>', '?', Char.ofNat 96, Char.ofNat 123, Char.ofNat 125]

def hexDigit (n : Nat) : Char := if n < 10 then Char.ofNat (48 + n) else Char.ofNat (55 + n)

def escape (b : UInt8) : List Char := ['%', hexDigit (b.toNat / 16), hexDigit (b.toNat % 16)]

def encode (seg : List Char) : List Char :=
  seg.flatMap fun c => if escaped c then (String.utf8EncodeChar c).flatMap escape else [c]

/-- What follows a dot, which may also be written `%2e`. -/
def dropDot : List Char → Option (List Char)
  | '.' :: rest => some rest
  | '%' :: '2' :: e :: rest => if e = 'e' ∨ e = 'E' then some rest else none
  | _ => none

def isDot (seg : List Char) : Bool := dropDot seg = some []

def isDotDot (seg : List Char) : Bool := (dropDot seg).bind dropDot = some []

def isDriveLetter : List Char → Bool
  | [a, b] => a.isAlpha && (b = ':' || b = '|')
  | _ => false

/-- A path without its last segment; a Windows drive letter stays. -/
def pop (path : List (List Char)) : List (List Char) :=
  if (path.getLast?.map isDriveLetter).getD false then path else path.dropLast

/-- The path after further segments. -/
def walk (path : List (List Char)) : List (List Char) → List (List Char)
  | [] => path
  | [seg] =>
    if isDotDot seg then pop path ++ [[]]
    else if isDot seg then path ++ [[]]
    else path ++ [encode seg]
  | seg :: segs =>
    walk (if isDotDot seg then pop path else if isDot seg then path else path ++ [encode seg]) segs

/-- The path of a URL whose text ends with `text` after the segments of `path`. -/
def path (path : List (List Char)) (text : List Char) : List (List Char) :=
  let input := (text.rdropWhile (· ≤ ' ')).filter (· ∉ ['\t', '\n', '\r'])
  walk path ((input.takeWhile (· ∉ ['?', '#'])).splitOnP (· ∈ ['/', '\\']))

def hexValue (c : Char) : Option Nat :=
  if '0' ≤ c ∧ c ≤ '9' then some (c.toNat - 48)
  else if 'A' ≤ c ∧ c ≤ 'F' then some (c.toNat - 55)
  else if 'a' ≤ c ∧ c ≤ 'f' then some (c.toNat - 87)
  else none

/-- The bytes that a segment of a path stands for. -/
def decode : List Char → List UInt8
  | '%' :: a :: b :: rest =>
    match hexValue a, hexValue b with
    | some x, some y => UInt8.ofNat (16 * x + y) :: decode rest
    | _, _ => String.utf8EncodeChar '%' ++ decode (a :: b :: rest)
  | c :: rest => String.utf8EncodeChar c ++ decode rest
  | [] => []

/-- A segment that stands for its own text. -/
def plain (seg : List Char) : Bool :=
  seg ≠ [] && !isDot seg && !isDotDot seg && seg.all fun c => !escaped c && c ∉ ['/', '\\', '%']

theorem encode_plain (h : ∀ c ∈ seg, escaped c = false) : encode seg = seg := by
  induction seg with
  | nil => rfl
  | cons c seg ih =>
    have hc := h c (List.mem_cons_self ..)
    rw [encode, List.flatMap_cons, hc, if_neg Bool.false_ne_true]
    exact congrArg (c :: ·) (ih fun c hm => h c (List.mem_cons_of_mem _ hm))

theorem decode_cons (hc : c ≠ '%') (rest : List Char) :
    decode (c :: rest) = String.utf8EncodeChar c ++ decode rest := by
  rw [decode]
  rintro _ _ _ rfl
  exact absurd rfl hc

theorem decode_plain (h : '%' ∉ seg) : decode seg = Utf8.encode seg := by
  induction seg with
  | nil => rfl
  | cons c seg ih =>
    have hc : c ≠ '%' := fun he => h (he ▸ List.mem_cons_self ..)
    rw [decode_cons hc, ih fun hm => h (List.mem_cons_of_mem _ hm), Utf8.encode_cons]

theorem path_plain (h : plain seg = true) (path : List (List Char)) :
    Url.path path seg = path ++ [seg] := by
  simp only [plain, Bool.and_eq_true, Bool.not_eq_true', List.all_eq_true, decide_eq_true_eq] at h
  obtain ⟨⟨⟨hne, hdot⟩, hdots⟩, hall⟩ := h
  have hesc : ∀ c ∈ seg, escaped c = false := fun c hm => (hall c hm).1
  have hkept : ∀ c ∈ seg, ¬ c ≤ ' ' := by
    intro c hm hle
    have := hesc c hm
    simp [escaped, hle] at this
  have htrim : seg.rdropWhile (· ≤ ' ') = seg := by
    rw [List.rdropWhile_eq_self_iff]
    intro hl
    simpa using hkept _ (List.getLast_mem hl)
  have hclean : seg.filter (· ∉ ['\t', '\n', '\r']) = seg := by
    rw [List.filter_eq_self]
    intro c hm
    have hc := hkept c hm
    simp only [List.mem_cons, List.not_mem_nil, or_false, decide_eq_true_eq, not_or]
    refine ⟨?_, ?_, ?_⟩ <;> rintro rfl <;> exact hc (by decide)
  have hcut : seg.takeWhile (· ∉ ['?', '#']) = seg := by
    rw [List.takeWhile_eq_self_iff]
    intro c hm
    have hc := hesc c hm
    simp only [List.mem_cons, List.not_mem_nil, or_false, decide_eq_true_eq, not_or]
    refine ⟨?_, ?_⟩ <;> rintro rfl <;> exact absurd hc (by decide)
  have hwhole : seg.splitOnP (· ∈ ['/', '\\']) = [seg] := by
    apply List.splitOnP_eq_singleton
    intro c hm
    have hc := (hall c hm).2
    simp_all
  simp only [Url.path, htrim, hclean, hcut, hwhole, walk, hdot, hdots, encode_plain hesc]
  rfl

end Url

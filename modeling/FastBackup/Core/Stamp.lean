import FastBackup.Core.Calendar
import FastBackup.Decimal.Fixed
import Mathlib.Data.List.Basic
import Mathlib.Data.String.Basic

namespace FastBackup
open Decimal
set_option autoImplicit true

/-- A time as it is written into a name. Each number but the year has two digits. -/
structure Stamp where
  year : Int
  month : Nat
  day : Nat
  hour : Nat
  minute : Nat
  second : Nat
  fits : ∀ n ∈ [month, day, hour, minute, second], n < 10 ^ 2

def seconds (now : DateTime) : Int := now / 1000000000

def stamp (now : DateTime) : Stamp where
  year := (civil (seconds now / 86400)).1
  month := (civil (seconds now / 86400)).2.1
  day := (civil (seconds now / 86400)).2.2
  hour := (seconds now % 86400).toNat / 3600
  minute := (seconds now % 86400).toNat / 60 % 60
  second := (seconds now % 86400).toNat % 60
  fits := by
    have hday := civil_day_le (seconds now / 86400)
    have hmonth := (civil_spec (seconds now / 86400)).2.1
    simp only [List.forall_mem_cons, List.not_mem_nil, false_implies, implies_true, and_true]
    omega

theorem Stamp.fields (s : Stamp) : s.month < 10 ^ 2 ∧ s.day < 10 ^ 2 ∧ s.hour < 10 ^ 2 ∧
    s.minute < 10 ^ 2 ∧ s.second < 10 ^ 2 := by
  simpa only [List.forall_mem_cons, List.not_mem_nil, false_implies, implies_true, and_true]
    using s.fits

/-- The text after the year. -/
def Stamp.tail (s : Stamp) : List Char :=
  '-' :: (fixed 2 s.month ++ '-' :: (fixed 2 s.day ++ '_' :: (fixed 2 s.hour ++
    ':' :: (fixed 2 s.minute ++ ':' :: (fixed 2 s.second)))))

theorem toList_pad (width n : Nat) : (pad width n).toList = fixed width n := by
  rw [pad, String.toList_append, String.toList_ofList, Nat.toString_eq_ofList_toDigits,
    String.toList_ofList, fixed, String.length_ofList]

theorem toList_nameTime (now : DateTime) :
    (nameTime now).toList = (yearText (stamp now).year).toList ++ (stamp now).tail := by
  simp [nameTime, toList_pad, Stamp.tail, stamp, seconds]

/-- An earlier stamp: the numbers compared one after the other. -/
def Stamp.Before (a b : Stamp) : Prop :=
  a.year < b.year ∨ a.year = b.year ∧ (a.month < b.month ∨ a.month = b.month ∧
    (a.day < b.day ∨ a.day = b.day ∧ (a.hour < b.hour ∨ a.hour = b.hour ∧
      (a.minute < b.minute ∨ a.minute = b.minute ∧ a.second < b.second))))

theorem stamp_before (h : seconds now < seconds now') : (stamp now).Before (stamp now') := by
  unfold Stamp.Before stamp
  rcases Int.lt_or_eq_of_le (Int.ediv_le_ediv (by decide : (0 : Int) < 86400) h.le) with hd | hd
  · rcases civil_before hd with hy | ⟨hy, hm | ⟨hm, hday⟩⟩
    · exact .inl hy
    · exact .inr ⟨hy, .inl hm⟩
    · exact .inr ⟨hy, .inr ⟨hm, .inl hday⟩⟩
  · simp only [hd, lt_irrefl, true_and, false_or]
    omega

theorem Stamp.tail_length (s : Stamp) : s.tail.length = 15 := by
  obtain ⟨h₁, h₂, h₃, h₄, h₅⟩ := s.fields
  have htwo : (0 : Nat) < 2 := by decide
  simp only [Stamp.tail, List.length_cons, List.length_append, length_fixed htwo h₁,
    length_fixed htwo h₂, length_fixed htwo h₃, length_fixed htwo h₄, length_fixed htwo h₅]

/-- Stamps of the same year compare like their texts. -/
theorem Stamp.tail_lt (a b : Stamp) (h : a.month < b.month ∨ a.month = b.month ∧
    (a.day < b.day ∨ a.day = b.day ∧ (a.hour < b.hour ∨ a.hour = b.hour ∧
      (a.minute < b.minute ∨ a.minute = b.minute ∧ a.second < b.second)))) : a.tail < b.tail := by
  have hfield : ∀ {n m : Nat} {sep : Char} {x y : List Char}, n < 10 ^ 2 → m < 10 ^ 2 →
      (n < m ∨ n = m ∧ x < y) → sep :: (fixed 2 n ++ x) < sep :: (fixed 2 m ++ y) := by
    intro n m sep x y hn hm h
    exact List.cons_lt_cons_iff.2 (.inr ⟨rfl, fixed_append_lt (by decide) hn hm h⟩)
  obtain ⟨ha₁, ha₂, ha₃, ha₄, ha₅⟩ := a.fields
  obtain ⟨hb₁, hb₂, hb₃, hb₄, hb₅⟩ := b.fields
  refine hfield ha₁ hb₁ (h.imp_right fun h => ⟨h.1, ?_⟩)
  refine hfield ha₂ hb₂ (h.2.imp_right fun h => ⟨h.1, ?_⟩)
  refine hfield ha₃ hb₃ (h.2.imp_right fun h => ⟨h.1, ?_⟩)
  refine hfield ha₄ hb₄ (h.2.imp_right fun h => ⟨h.1, ?_⟩)
  exact List.cons_lt_cons_iff.2 (.inr ⟨rfl, fixed_lt (by decide) ha₅ hb₅ h.2⟩)

/-- The text after the year has the numbers after the year. -/
theorem Stamp.tail_injective (a b : Stamp) (h : a.tail = b.tail) : a.month = b.month ∧
    a.day = b.day ∧ a.hour = b.hour ∧ a.minute = b.minute ∧ a.second = b.second := by
  have hfield : ∀ {n m : Nat} {sep : Char} {x y : List Char}, n < 10 ^ 2 → m < 10 ^ 2 →
      sep :: (fixed 2 n ++ x) = sep :: (fixed 2 m ++ y) → n = m ∧ x = y := by
    intro n m sep x y hn hm he
    have hlen : (fixed 2 n).length = (fixed 2 m).length := by
      rw [length_fixed (by decide) hn, length_fixed (by decide) hm]
    obtain ⟨hd, hrest⟩ := List.append_inj (List.cons.inj he).2 hlen
    exact ⟨fixed_injective hd, hrest⟩
  obtain ⟨ha₁, ha₂, ha₃, ha₄, ha₅⟩ := a.fields
  obtain ⟨hb₁, hb₂, hb₃, hb₄, hb₅⟩ := b.fields
  obtain ⟨hmonth, h⟩ := hfield ha₁ hb₁ h
  obtain ⟨hday, h⟩ := hfield ha₂ hb₂ h
  obtain ⟨hhour, h⟩ := hfield ha₃ hb₃ h
  obtain ⟨hminute, h⟩ := hfield ha₄ hb₄ h
  exact ⟨hmonth, hday, hhour, hminute, fixed_injective (List.cons.inj h).2⟩

theorem toList_yearText (y : Int) : (yearText y).toList =
    if 0 ≤ y ∧ y < 10000 then fixed 4 y.toNat
    else (if y < 0 then '-' else '+') :: fixed 4 y.natAbs := by
  unfold yearText
  split
  · exact toList_pad 4 _
  · split
    · rw [String.toList_append, toList_pad]
      rfl
    · rw [String.toList_append, toList_pad]
      rfl

theorem yearText_chars (hc : c ∈ (yearText y).toList) : c.isDigit = true ∨ c = '-' ∨ c = '+' := by
  rw [toList_yearText] at hc
  split at hc
  · exact .inl (isDigit_fixed hc)
  · rcases List.mem_cons.1 hc with rfl | hc
    · split
      · exact .inr (.inl rfl)
      · exact .inr (.inr rfl)
    · exact .inl (isDigit_fixed hc)

theorem yearText_injective (h : (yearText y).toList = (yearText y').toList) : y = y' := by
  -- a sign is no digit, so both years have one or none
  have hsign : ∀ {y n : Int} {cs : List Char},
      fixed 4 n.toNat ≠ (if y < 0 then '-' else '+') :: cs := by
    intro y n cs he
    have hd : (if y < 0 then '-' else '+').isDigit = true :=
      isDigit_fixed (he ▸ List.mem_cons_self ..)
    split at hd <;> cases hd
  rw [toList_yearText, toList_yearText] at h
  by_cases hy : 0 ≤ y ∧ y < 10000
  · by_cases hy' : 0 ≤ y' ∧ y' < 10000
    · rw [if_pos hy, if_pos hy'] at h
      have hn := fixed_injective h
      omega
    · rw [if_pos hy, if_neg hy'] at h
      exact absurd h hsign
  · by_cases hy' : 0 ≤ y' ∧ y' < 10000
    · rw [if_neg hy, if_pos hy'] at h
      exact absurd h.symm hsign
    · rw [if_neg hy, if_neg hy'] at h
      obtain ⟨hs, hn⟩ := List.cons.inj h
      have hn := fixed_injective hn
      have hsame : y < 0 ↔ y' < 0 := by
        by_cases h₁ : y < 0 <;> by_cases h₂ : y' < 0 <;> simp [h₁, h₂] at hs ⊢
      omega

theorem stamp_injective (hy : (stamp now).year = (stamp now').year)
    (ht : (stamp now).tail = (stamp now').tail) : seconds now = seconds now' := by
  have hirrefl : ∀ {a b : Stamp}, a.year = b.year → a.tail = b.tail → ¬ a.Before b := by
    intro a b hy ht hb
    obtain ⟨hmonth, hday, hhour, hminute, hsecond⟩ := a.tail_injective b ht
    unfold Stamp.Before at hb
    omega
  rcases Int.lt_trichotomy (seconds now) (seconds now') with hlt | heq | hgt
  · exact absurd (stamp_before hlt) (hirrefl hy ht)
  · exact heq
  · exact absurd (stamp_before hgt) (hirrefl hy.symm ht.symm)

/-- A text is cut at the last place of a character in one way only. -/
theorem cut_unique {c : Char} (h : a ++ c :: x = b ++ c :: y) (hx : c ∉ x) (hy : c ∉ y) :
    a = b ∧ x = y := by
  rcases List.append_eq_append_iff.1 h with ⟨rest, hb, he⟩ | ⟨rest, ha, he⟩
  · cases rest with
    | nil =>
      rw [List.append_nil] at hb
      exact ⟨hb.symm, (List.cons.inj he).2⟩
    | cons d rest =>
      refine absurd ?_ hx
      rw [(List.cons.inj he).2]
      exact List.mem_append_right _ (List.mem_cons_self ..)
  · cases rest with
    | nil =>
      rw [List.append_nil] at ha
      exact ⟨ha, (List.cons.inj he).2.symm⟩
    | cons d rest =>
      refine absurd ?_ hy
      rw [(List.cons.inj he).2]
      exact List.mem_append_right _ (List.mem_cons_self ..)

/-- What stands before the name of the database. -/
def BackupKind.start : BackupKind → List Char
  | .regular => "backup_".toList
  | .preRestore => "pre_restore_backup_".toList

theorem toList_backupFileName (dbName : String) (kind : BackupKind) (now : DateTime) :
    (backupFileName dbName kind now).toList = (kind.start ++ dbName.toList) ++
      '_' :: (yearText (stamp now).year).toList ++ ((stamp now).tail ++ ".pgdump".toList) := by
  unfold backupFileName
  simp only [String.toList_append, toList_nameTime, List.append_assoc]
  cases kind with
  | regular => rfl
  | preRestore => rfl

theorem nameTime_congr (h : seconds now = seconds now') : nameTime now = nameTime now' := by
  unfold nameTime
  rw [show now / 1000000000 = now' / 1000000000 from h]

/-- Two backups get the same name only if they are of one database and kind, and made in the same
second. The name of a database can be any text. -/
theorem backupFileName_unique (dbName dbName' : String) (kind kind' : BackupKind)
    (now now' : DateTime) :
    backupFileName dbName kind now = backupFileName dbName' kind' now' ↔
      dbName = dbName' ∧ kind = kind' ∧ seconds now = seconds now' := by
  constructor
  · intro h
    have h := congrArg String.toList h
    rw [toList_backupFileName, toList_backupFileName] at h
    have hlen : ((stamp now).tail ++ ".pgdump".toList).length =
        ((stamp now').tail ++ ".pgdump".toList).length := by
      rw [List.length_append, List.length_append, Stamp.tail_length, Stamp.tail_length]
    obtain ⟨hfront, hback⟩ := List.append_inj' h hlen
    have hline : ∀ y, '_' ∉ (yearText y).toList := by
      intro y hm
      rcases yearText_chars hm with hd | he | he
      · cases hd
      · cases he
      · cases he
    obtain ⟨hstart, hyear⟩ := cut_unique hfront (hline _) (hline _)
    have hsec := stamp_injective (yearText_injective hyear) (List.append_cancel_right hback)
    cases kind <;> cases kind'
    · exact ⟨String.toList_inj.1 (List.append_cancel_left hstart), rfl, hsec⟩
    · cases (List.cons.inj hstart).1
    · cases (List.cons.inj hstart).1
    · exact ⟨String.toList_inj.1 (List.append_cancel_left hstart), rfl, hsec⟩
  · rintro ⟨rfl, rfl, hsec⟩
    unfold backupFileName
    rw [nameTime_congr hsec]

/-- The seconds of the years 0 to 9999. -/
def FourDigits (now : DateTime) : Prop :=
  -62167219200 ≤ seconds now ∧ seconds now < 253402300800

instance : Decidable (FourDigits now) := inferInstanceAs (Decidable (_ ∧ _))

theorem FourDigits.year (h : FourDigits now) :
    0 ≤ (stamp now).year ∧ (stamp now).year < 10000 := by
  have hfirst : civil (-719528) = (0, 1, 1) := by decide
  have hlast : civil 2932897 = (10000, 1, 1) := by decide
  obtain ⟨hmonth, _, hday, _⟩ := civil_spec (seconds now / 86400)
  unfold FourDigits at h
  constructor
  · have hlow : -719528 ≤ seconds now / 86400 := by omega
    rcases Int.lt_or_eq_of_le hlow with hlt | heq
    · have hlower := civil_before hlt
      rw [hfirst, DateBefore] at hlower
      rcases hlower with hlt | ⟨heq, _⟩
      · exact Int.le_of_lt hlt
      · exact Int.le_of_eq heq
    · have hyear : (civil (seconds now / 86400)).1 = 0 := by rw [← heq, hfirst]
      exact Int.le_of_eq hyear.symm
  · have hhigh : seconds now / 86400 < 2932897 := by omega
    have hupper := civil_before hhigh
    rw [hlast, DateBefore] at hupper
    rcases hupper with hlt | ⟨_, hlt | ⟨_, hlt⟩⟩
    · exact hlt
    · exact absurd hlt (Nat.not_lt.2 hmonth)
    · exact absurd hlt (Nat.not_lt.2 hday)

theorem backupFileName_lt (dbName : String) (kind : BackupKind) (hn : FourDigits now)
    (hn' : FourDigits now') (h : seconds now < seconds now') :
    backupFileName dbName kind now < backupFileName dbName kind now' := by
  have hyear : ∀ {now}, FourDigits now →
      (yearText (stamp now).year).toList = fixed 4 (stamp now).year.toNat := by
    intro now hn
    rw [toList_yearText, if_pos hn.year]
  have hwidth : ∀ {now}, FourDigits now → (stamp now).year.toNat < 10 ^ 4 := by
    intro now hn
    have := hn.year
    omega
  rw [String.lt_iff_toList_lt, toList_backupFileName, toList_backupFileName, hyear hn, hyear hn']
  rw [List.append_assoc, List.append_assoc _ ('_' :: _)]
  apply List.append_left_lt
  refine List.cons_lt_cons_iff.2 (.inr ⟨rfl, ?_⟩)
  apply fixed_append_lt (by decide) (hwidth hn) (hwidth hn')
  have hy := hn.year
  have hy' := hn'.year
  rcases stamp_before h with hlt | ⟨heq, hrest⟩
  · exact .inl (by omega)
  · refine .inr ⟨by rw [heq], append_lt_append ?_ (.inl ((stamp now).tail_lt _ hrest))⟩
    rw [Stamp.tail_length, Stamp.tail_length]

/-- The names of the backups of one database sort by the time they were made. -/
theorem backupFileName_sorted (dbName : String) (kind : BackupKind) (hn : FourDigits now)
    (hn' : FourDigits now') :
    backupFileName dbName kind now < backupFileName dbName kind now' ↔
      seconds now < seconds now' := by
  refine ⟨fun h => ?_, backupFileName_lt dbName kind hn hn'⟩
  rcases Int.lt_trichotomy (seconds now) (seconds now') with hlt | heq | hgt
  · exact hlt
  · unfold backupFileName at h
    rw [nameTime_congr heq] at h
    exact absurd h (lt_irrefl _)
  · exact absurd (backupFileName_lt dbName kind hn' hn hgt) (lt_asymm h)

theorem backupFileName_sorted_newYear :
    backupFileName "db" .regular (946684799 * 1000000000) <
      backupFileName "db" .regular (946684800 * 1000000000) :=
  (backupFileName_sorted "db" .regular (by decide) (by decide)).2 (by decide)

end FastBackup

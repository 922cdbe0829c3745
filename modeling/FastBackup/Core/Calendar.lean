import FastBackup.Core.Backup

namespace FastBackup
set_option autoImplicit true

/-- The days of an era before its year `y`, where years start in March. -/
def yearStart (y : Nat) : Nat := 365 * y + y / 4 - y / 100 + y / 400

/-- The year of the era that `civil` takes is the one its day lies in. -/
theorem yearOfEra (hd : doe < 146097)
    (hy : yoe = (doe - doe / 1460 + doe / 36524 - doe / 146096) / 365) :
    yoe < 400 ∧ yearStart yoe ≤ doe ∧ doe < yearStart (yoe + 1) := by
  -- the last day of an era is the only one with `doe / 146096 ≠ 0`
  have hcentury : yoe / 100 + doe / 146096 = doe / 36524 := by
    have hlow : 100 * (doe / 36524) ≤ yoe + 100 * (doe / 146096) := by
      omega
    have hhigh : yoe + 100 * (doe / 146096) < 100 * (doe / 36524) + 100 := by
      have hlast : doe < 146096 ∨ doe = 146096 := by omega
      rcases hlast with hlt | rfl
      · have hzero : doe / 146096 = 0 := by omega
        have hday : doe < 36524 * (doe / 36524) + 36524 := by omega
        rw [hzero] at hy ⊢
        generalize doe / 36524 = century at *
        omega
      · omega
    omega
  have hfour : yoe / 4 = doe / 1460 ∨ yoe + 1 = 4 * (doe / 1460) := by
    omega
  have hlt : yoe < 400 := by omega
  unfold yearStart
  refine ⟨hlt, by omega, ?_⟩
  have h400 : (yoe + 1) / 400 = 0 ∨ yoe = 399 := by omega
  have h100 : (yoe + 1) / 100 = yoe / 100 + 1 ∨ (yoe + 1) / 100 = yoe / 100 := by omega
  have h4 : (yoe + 1) / 4 = yoe / 4 + 1 ∨ (yoe + 1) / 4 = yoe / 4 := by omega
  rcases h400 with h400 | rfl
  · rcases h100 with h100 | h100
    · rcases h4 with h4 | h4 <;> omega
    · rcases h4 with h4 | h4 <;> omega
  · omega

/-- The number of the day before the first one of a month; months count from March of year 0. -/
def monthDay (month : Int) : Int :=
  365 * (month / 12) + month / 12 / 4 - month / 12 / 100 + month / 12 / 400 +
    (153 * (month % 12) + 2) / 5 - 719469

theorem monthDay_next (month : Int) :
    monthDay month + 28 ≤ monthDay (month + 1) ∧ monthDay (month + 1) ≤ monthDay month + 31 := by
  unfold monthDay
  by_cases hlast : month % 12 = 11
  · have hyear : (month + 1) / 12 = month / 12 + 1 := by omega
    have hmonth : (month + 1) % 12 = 0 := by omega
    rw [hyear, hmonth, hlast]
    generalize month / 12 = y
    omega
  · have hyear : (month + 1) / 12 = month / 12 := by omega
    have hmonth : (month + 1) % 12 = month % 12 + 1 := by omega
    rw [hyear, hmonth]
    omega

theorem monthDay_mono (h : month < month') : monthDay (month + 1) ≤ monthDay month' := by
  obtain ⟨n, rfl⟩ := Int.le.dest (Int.add_one_le_of_lt h)
  induction n with
  | zero => simp
  | succ n ih =>
    have hnext := (monthDay_next (month + 1 + n)).1
    have hprev := ih (by omega)
    have he : month + 1 + (n + 1 : Nat) = month + 1 + n + 1 := by omega
    rw [he]
    omega

/-- The month of a date, counted from March of year 0. -/
def monthNumber (date : Int × Nat × Nat) : Int := 12 * date.1 + date.2.1 - 3

theorem monthDay_era (era : Int) (yoe mp : Nat) (hm : mp ≤ 11) :
    monthDay (12 * (yoe + era * 400) + mp) =
      era * 146097 + yearStart yoe + ((153 * mp + 2) / 5 : Nat) - 719469 := by
  have hyear : (12 * (yoe + era * 400) + mp : Int) / 12 = yoe + era * 400 := by omega
  have hmonth : (12 * (yoe + era * 400) + mp : Int) % 12 = mp := by omega
  rw [monthDay, hyear, hmonth, yearStart]
  omega

theorem yearStart_next (y : Nat) : yearStart (y + 1) ≤ yearStart y + 366 := by
  unfold yearStart
  by_cases hcentury : (y + 1) % 100 = 0
  · have hnext : (y + 1) / 100 = y / 100 + 1 := by omega
    omega
  · have hsame : (y + 1) / 400 = y / 400 := by omega
    omega

/-- What `civil` computes on its way: the era, the year in it, and the day of that year. -/
theorem civil_parts (days : Int) : ∃ (era : Int) (yoe doy : Nat),
    days = era * 146097 + yearStart yoe + doy - 719468 ∧ doy ≤ 365 ∧
    yearStart yoe + doy < yearStart (yoe + 1) ∧
    civil days =
      let mp := (5 * doy + 2) / 153
      let m := if mp < 10 then mp + 3 else mp - 9
      (yoe + era * 400 + (if m ≤ 2 then 1 else 0), m, doy - (153 * mp + 2) / 5 + 1) := by
  let doe := ((days + 719468) % 146097).toNat
  let yoe := (doe - doe / 1460 + doe / 36524 - doe / 146096) / 365
  have hdays : days = (days + 719468) / 146097 * 146097 + doe - 719468 := by omega
  have hspec : yoe < 400 ∧ yearStart yoe ≤ doe ∧ doe < yearStart (yoe + 1) :=
    yearOfEra (by omega) rfl
  have hstart : 365 * yoe + yoe / 4 - yoe / 100 = yearStart yoe := by
    unfold yearStart
    omega
  have hnext := yearStart_next yoe
  refine ⟨(days + 719468) / 146097, yoe, doe - (365 * yoe + yoe / 4 - yoe / 100), ?_, ?_, ?_, rfl⟩
    <;> rw [hstart] <;> clear_value yoe doe <;> omega

/-- `civil` finds the month a day lies in. -/
theorem civil_spec (days : Int) : 1 ≤ (civil days).2.1 ∧ (civil days).2.1 ≤ 12 ∧
    1 ≤ (civil days).2.2 ∧ days = monthDay (monthNumber (civil days)) + (civil days).2.2 ∧
    days ≤ monthDay (monthNumber (civil days) + 1) := by
  obtain ⟨era, yoe, doy, hdays, hdoy, hyear, he⟩ := civil_parts days
  generalize hmp : (5 * doy + 2) / 153 = mp at he
  have hm : mp ≤ 11 := by omega
  have hnumber : monthNumber (civil days) = 12 * (yoe + era * 400) + mp := by
    rw [he]
    simp only [monthNumber]
    split
    · rw [if_neg (by omega)]
      omega
    · rw [if_pos (by omega)]
      omega
  have hnext : era * 146097 + yearStart yoe + doy - 719468 ≤
      monthDay (12 * (yoe + era * 400) + mp + 1) := by
    by_cases hlast : mp = 11
    · have hjan := monthDay_era era (yoe + 1) 0 (Nat.zero_le 11)
      have hsame : (12 * ((yoe + 1 : Nat) + era * 400) + (0 : Nat) : Int) =
          12 * (yoe + era * 400) + mp + 1 := by omega
      rw [← hsame, hjan]
      omega
    · have hmonth := monthDay_era era yoe (mp + 1) (by omega)
      have hsame : (12 * (yoe + era * 400) + (mp + 1 : Nat) : Int) =
          12 * (yoe + era * 400) + mp + 1 := by omega
      rw [← hsame, hmonth]
      omega
  rw [hnumber, monthDay_era era yoe mp hm, he]
  refine ⟨?_, ?_, ?_, ?_, hdays ▸ hnext⟩
  · simp only
    split <;> omega
  · simp only
    split <;> omega
  · simp only
    omega
  · simp only
    omega

/-- An earlier date: year, month and day compared in this order. -/
def DateBefore (a b : Int × Nat × Nat) : Prop :=
  a.1 < b.1 ∨ a.1 = b.1 ∧ (a.2.1 < b.2.1 ∨ a.2.1 = b.2.1 ∧ a.2.2 < b.2.2)

theorem civil_before (h : days < days') : DateBefore (civil days) (civil days') := by
  obtain ⟨hm, hm', _, hdays, hnext⟩ := civil_spec days
  obtain ⟨hn, hn', _, hdays', hnext'⟩ := civil_spec days'
  have hle : monthNumber (civil days) ≤ monthNumber (civil days') := by
    by_contra hgt
    have hmono := monthDay_mono (Int.not_le.1 hgt)
    omega
  unfold DateBefore
  rcases Int.lt_or_eq_of_le hle with hlt | heq
  · unfold monthNumber at hlt
    omega
  · rw [heq] at hdays
    unfold monthNumber at heq
    omega

theorem civil_day_le (days : Int) : (civil days).2.2 ≤ 31 := by
  obtain ⟨_, _, _, hdays, hnext⟩ := civil_spec days
  have hlen := (monthDay_next (monthNumber (civil days))).2
  omega

end FastBackup

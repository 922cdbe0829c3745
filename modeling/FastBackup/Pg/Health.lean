import FastBackup.Pg.Process

namespace FastBackup
open Interaction
set_option autoImplicit true

/-- `BackupService::healthcheck`, whose `ping` is that of `PgTools`. -/
def healthcheck (self : PgTools) : Pg Bool := do
  match ← self.ping with
  | .ok _ => return true
  | .error _ => return false

theorem rdropWhile_append_of_pos {p : α → Bool} {l l' : List α} (h : ∀ x ∈ l', p x = true) :
    (l ++ l').rdropWhile p = l.rdropWhile p := by
  rw [List.rdropWhile, List.reverse_append, List.dropWhile_append_of_pos]
  · rfl
  · intro x hx
    exact h x (List.mem_reverse.1 hx)

/-- Trimming leaves one character if and only if all else is white space around it. -/
theorem trim_char (hc : isWhitespace c = false) : trim s = String.ofList [c] ↔
    ∃ before after, s.toList = before ++ c :: after ∧
      (∀ x ∈ before, isWhitespace x = true) ∧ ∀ x ∈ after, isWhitespace x = true := by
  rw [trim, trimEnd, String.toList_ofList, String.ofList_inj]
  constructor
  · intro h
    refine ⟨(s.toList.rdropWhile isWhitespace).takeWhile isWhitespace,
      s.toList.rtakeWhile isWhitespace, ?_, ?_, ?_⟩
    · have hsplit := List.takeWhile_append_dropWhile (p := isWhitespace)
        (l := s.toList.rdropWhile isWhitespace)
      rw [h] at hsplit
      have hend := List.rdropWhile_append_rtakeWhile (p := isWhitespace) (l := s.toList)
      rw [← hsplit, List.append_assoc] at hend
      exact hend.symm
    · intro x hx
      exact List.mem_takeWhile_imp hx
    · intro x hx
      exact List.mem_rtakeWhile_imp hx
  · rintro ⟨before, after, hs, hb, ha⟩
    have hne : ¬ isWhitespace c = true := by
      rw [hc]
      exact Bool.false_ne_true
    have hcut : before ++ c :: after = before ++ [c] ++ after := by simp
    rw [hs, hcut, rdropWhile_append_of_pos ha, List.rdropWhile_concat_neg _ _ _ hne,
      List.dropWhile_append_of_pos hb, List.dropWhile_cons_of_neg hne]

/-- The reply of a server that is up: the query succeeded in time and printed a one. -/
def Healthy (r : Option (Except Error CommandOutput)) : Prop :=
  ∃ out before after, r = some (.ok out) ∧ out.success = true ∧
    out.stdout.toList = before ++ '1' :: after ∧
    (∀ c ∈ before, isWhitespace c = true) ∧ ∀ c ∈ after, isWhitespace c = true

/-- What `ping` makes of the output of its query. -/
def pinged : Except Error String → Bool
  | .ok out => trim out = "1"
  | .error _ => false

theorem healthcheck_eq (self : PgTools) : healthcheck self =
    .call (.run (queryCommand self.target "SELECT 1") pingTimeout) fun r =>
      .ret (pinged (ran (queryCommand self.target "SELECT 1") pingTimeout r)) := by
  rw [healthcheck, PgTools.ping, execute_eq, Prog.call_bind, Prog.call_bind]
  congr 1
  funext r
  cases ran (queryCommand self.target "SELECT 1") pingTimeout r with
  | error e => rfl
  | ok out =>
    simp only [Prog.ret_bind, pinged]
    by_cases h : trim out = "1"
    · simp [h]
    · simp [h]

theorem pinged_ran (cmd : PgCommand) (limit : Duration) (r : Option (Except Error CommandOutput)) :
    pinged (ran cmd limit r) = true ↔ Healthy r := by
  match r with
  | none =>
    simp only [ran, pinged, Bool.false_eq_true, false_iff]
    rintro ⟨out, before, after, hr, _⟩
    cases hr
  | some (.error e) =>
    simp only [ran, pinged, Bool.false_eq_true, false_iff]
    rintro ⟨out, before, after, hr, _⟩
    cases hr
  | some (.ok out) =>
    by_cases ho : out.success = true
    · have hone : trim out.stdout = "1" ↔ _ := trim_char (c := '1') rfl
      rw [ran_success _ _ ho, pinged, decide_eq_true_iff, hone]
      constructor
      · rintro ⟨before, after, hs, hb, ha⟩
        exact ⟨out, before, after, rfl, ho, hs, hb, ha⟩
      · rintro ⟨out', before, after, hr, _, hs, hb, ha⟩
        cases hr
        exact ⟨before, after, hs, hb, ha⟩
    · simp only [ran, ho, pinged, not_false_eq_true, if_true, Bool.false_eq_true, false_iff]
      rintro ⟨out', before, after, hr, ho', _⟩
      cases hr
      exact ho ho'

/-- A healthcheck is one run of `psql` with a limit of ten seconds. It never fails, and reports
health if and only if the process succeeds in time and prints a one with nothing but white space
around it. -/
theorem healthcheck_iff (self : PgTools) (evs : List (Event PgCall PgCall.Reply)) (b : Bool) :
    Runs (healthcheck self) evs (.ret b) ↔
      ∃ r, evs = [⟨.run (queryCommand self.target "SELECT 1") (10 * 1000000000), r⟩] ∧
        (b = true ↔ Healthy r) := by
  rw [healthcheck_eq]
  constructor
  · intro hr
    cases hr with
    | cons r hr =>
      obtain ⟨rfl, hb⟩ := runs_ret hr
      cases hb
      exact ⟨r, rfl, pinged_ran _ _ r⟩
  · rintro ⟨r, rfl, hb⟩
    rw [← pinged_ran (queryCommand self.target "SELECT 1") pingTimeout, Bool.eq_iff_iff.symm] at hb
    rw [hb]
    exact .cons r (.nil _)

end FastBackup

import FastBackup.Core.Backup

namespace FastBackup
set_option autoImplicit true

theorem splitSlash_of_not_mem (hs : '/' ∉ cs) : splitSlash cs = [cs] := by
  induction cs with
  | nil => rfl
  | cons c cs ih =>
    rw [List.mem_cons, not_or] at hs
    rw [splitSlash, if_neg (Ne.symm hs.1), ih hs.2]

/-- Text without slashes at the end of a path is at the end of its last part. -/
theorem splitSlash_append (cs : List Char) (hs : '/' ∉ last) :
    ∃ parts part, splitSlash (cs ++ last) = parts ++ [part ++ last] := by
  induction cs with
  | nil => exact ⟨[], [], splitSlash_of_not_mem hs⟩
  | cons c cs ih =>
    obtain ⟨parts, part, he⟩ := ih
    rw [List.cons_append, splitSlash, he]
    by_cases hc : c = '/'
    · exact ⟨[] :: parts, part, by rw [if_pos hc]; rfl⟩
    · rw [if_neg hc]
      cases parts with
      | nil => exact ⟨[], c :: part, rfl⟩
      | cons first parts => exact ⟨(c :: first) :: parts, part, rfl⟩

/-- A path that ends with a dot and an extension, where the character before the dot is no slash,
has a file name with that end. -/
theorem fileName_of_extension {path : String} (he : path.toList = cs ++ c :: '.' :: ext)
    (hc : c ≠ '/') (hs : '/' ∉ ext) (hne : ext ≠ []) :
    ∃ part, fileName path = some (part ++ c :: '.' :: ext) := by
  have hlast : '/' ∉ c :: '.' :: ext := by
    simp [hs, Ne.symm hc]
  obtain ⟨parts, part, hparts⟩ := splitSlash_append cs hlast
  refine ⟨part, ?_⟩
  have hlen : 3 ≤ (part ++ c :: '.' :: ext).length := by
    have := List.length_pos_iff.2 hne
    simp only [List.length_append, List.length_cons]
    omega
  have hkept : ((splitSlash path.toList).filter (fun c => c ≠ [] ∧ c ≠ ['.'])).getLast? =
      some (part ++ c :: '.' :: ext) := by
    have hp : decide (part ++ c :: '.' :: ext ≠ [] ∧ part ++ c :: '.' :: ext ≠ ['.']) = true := by
      rw [decide_eq_true_iff]
      constructor <;> intro h <;> rw [h] at hlen <;> simp at hlen
    rw [he, hparts, List.filter_append, List.filter_singleton, hp]
    exact List.getLast?_concat
  rw [fileName, hkept]
  split
  · rename_i h
    rw [Option.some.injEq] at h
    rw [h] at hlen
    simp at hlen
  · rfl

/-- The text ends with a character other than a slash. -/
def EndsInName (text : String) : Prop := ∃ cs c, text.toList = cs ++ [c] ∧ c ≠ '/'

theorem EndsInName.append (start : String) (hs : EndsInName text) : EndsInName (start ++ text) := by
  obtain ⟨cs, c, he, hc⟩ := hs
  exact ⟨start.toList ++ cs, c, by rw [String.toList_append, he, List.append_assoc], hc⟩

theorem endsInName_toString (n : Nat) : EndsInName (toString n) := by
  have hdigits : (toString n).toList = Nat.toDigits 10 n := by
    rw [Nat.toString_eq_repr, Nat.toList_repr]
  have hne : Nat.toDigits 10 n ≠ [] := Nat.toDigits_ne_nil
  refine ⟨(Nat.toDigits 10 n).dropLast, (Nat.toDigits 10 n).getLast hne, ?_, ?_⟩
  · rw [hdigits, List.dropLast_append_getLast]
  · intro h
    have hdigit := Nat.isDigit_of_mem_toDigits (by decide) (by decide) (List.getLast_mem hne)
    rw [h] at hdigit
    cases hdigit

/-- The time in a name ends with the digits of its seconds. -/
theorem endsInName_nameTime (now : DateTime) : EndsInName (nameTime now) := by
  have hseconds (n : Nat) : EndsInName (pad 2 n) := (endsInName_toString n).append _
  exact (hseconds _).append _

/-- What stands after a dot at the end of a path is its extension, if a name stands before it. -/
theorem extension_append (hs : EndsInName start) (hslash : '/' ∉ ext.toList)
    (hdot : '.' ∉ ext.toList) (hne : ext ≠ "") : extension (start ++ ("." ++ ext)) = some ext := by
  obtain ⟨cs, c, he, hc⟩ := hs
  have hpath : (start ++ ("." ++ ext)).toList = cs ++ c :: '.' :: ext.toList := by
    have hpoint : ".".toList = ['.'] := String.toList_ofList
    rw [String.toList_append, String.toList_append, he, hpoint]
    simp
  have hne : ext.toList ≠ [] := fun h => hne (String.toList_eq_nil_iff.1 h)
  obtain ⟨part, hname⟩ := fileName_of_extension hpath hc hslash hne
  have hbefore : ∀ d ∈ ext.toList.reverse, decide (d ≠ '.') = true := by
    intro d hm
    rw [decide_eq_true_iff]
    rintro rfl
    exact hdot (List.mem_reverse.1 hm)
  have hrev : (part ++ c :: '.' :: ext.toList).reverse =
      ext.toList.reverse ++ '.' :: c :: part.reverse := by
    simp
  rw [extension, hname]
  simp only [hrev]
  rw [List.dropWhile_append_of_pos hbefore, List.takeWhile_append_of_pos hbefore]
  simp [String.ofList_toList]

/-- Whatever the database is called, the name of its dump has the extension of dumps. -/
theorem extension_backupFileName (dbName : String) (kind : BackupKind) (now : DateTime) :
    extension (backupFileName dbName kind now) = some "pgdump" := by
  have hend : ".pgdump" = "." ++ "pgdump" := by decide
  have hext : "pgdump".toList = ['p', 'g', 'd', 'u', 'm', 'p'] := String.toList_ofList
  unfold backupFileName
  rw [hend]
  apply extension_append ((endsInName_nameTime now).append _)
  · rw [hext]
    decide
  · rw [hext]
    decide
  · decide

theorem detectFormat_backupFileName (dbName : String) (kind : BackupKind) (now : DateTime) :
    detectFormat (backupFileName dbName kind now) none = .ok .pgCustom := by
  simp only [detectFormat, extension_backupFileName]

end FastBackup

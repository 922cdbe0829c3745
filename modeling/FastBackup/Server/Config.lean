import FastBackup.Decimal.Numeral
import FastBackup.Server.Settings

namespace FastBackup
open Decimal
set_option autoImplicit true

/-- The accumulator of the digit loop after digits of value `n`. -/
def withSign (negative : Bool) (n : Nat) : Int := if negative then -(n : Int) else n

/-- The numbers of the type. -/
def IntType.Holds (T : IntType) (n : Int) : Prop := T.min ≤ n ∧ n ≤ T.max

theorem withSign_next (negative : Bool) (a d : Nat) :
    (if negative then withSign negative a * 10 - d else withSign negative a * 10 + d) =
      withSign negative (10 * a + d) := by
  cases negative <;> simp only [withSign, if_true, if_false, Bool.false_eq_true] <;> omega

theorem IntType.holds_of_le {T : IntType} (hzero : T.Holds 0) (hle : a ≤ b)
    (hb : T.Holds (withSign negative b)) : T.Holds (withSign negative a) := by
  cases negative <;>
    simp only [IntType.Holds, withSign, if_true, if_false, Bool.false_eq_true] at * <;> omega

/-- The digit loop reads digits, and stops as soon as their value leaves the type. -/
theorem IntType.digits_iff {T : IntType} (hzero : T.Holds 0) {cs : List Char}
    (ha : T.Holds (withSign negative a)) : T.digits negative (withSign negative a) cs = .ok n ↔
      Digits cs ∧ n = withSign negative (Nat.ofDigitChars 10 cs a) ∧ T.Holds n := by
  induction cs generalizing a with
  | nil =>
    rw [IntType.digits, Nat.ofDigitChars_nil]
    constructor
    · intro he
      cases he
      exact ⟨digits_nil, rfl, ha⟩
    · rintro ⟨_, rfl, _⟩
      rfl
  | cons c cs ih =>
    rw [IntType.digits, digits_cons, Nat.ofDigitChars_cons]
    by_cases hc : c.isDigit = true
    · rw [if_neg (not_not.2 hc)]
      simp only [withSign_next]
      by_cases hb : T.Holds (withSign negative (10 * a + (c.toNat - '0'.toNat)))
      · rw [if_neg (Int.not_lt.2 hb.2), if_neg (Int.not_lt.2 hb.1), ih hb]
        simp only [hc, true_and]
      · -- what follows only leads further away
        constructor
        · intro he
          split at he
          · cases he
          · split at he
            · cases he
            · rename_i hmax hmin
              exact absurd ⟨Int.not_lt.1 hmin, Int.not_lt.1 hmax⟩ hb
        · rintro ⟨_, rfl, hn⟩
          exact absurd (IntType.holds_of_le hzero (le_ofDigitChars cs _) hn) hb
    · rw [if_pos hc]
      constructor
      · intro he
        cases he
      · rintro ⟨⟨hd, _⟩, _⟩
        exact absurd hd hc

/-- `from_str` accepts the numerals of the type's numbers, and nothing else. -/
theorem IntType.fromStr_iff {T : IntType} (hzero : T.Holds 0) {value : String} :
    T.fromStr value = .ok n ↔ Numeral T.signed value.toList n ∧ T.Holds n := by
  have hdigits (negative : Bool) (cs : List Char) : T.digits negative 0 cs = .ok n ↔
      Digits cs ∧ n = withSign negative (Decimal.value cs) ∧ T.Holds n := by
    have hstart : withSign negative 0 = 0 := by cases negative <;> rfl
    have hzero' : T.Holds (withSign negative 0) := by rwa [hstart]
    have hiff : T.digits negative (withSign negative 0) cs = .ok n ↔ _ := T.digits_iff hzero hzero'
    rwa [hstart] at hiff
  rw [IntType.fromStr]
  generalize value.toList = cs
  split
  · rw [numeral_plain (by simp) (by simp)]
    simp
  · rw [numeral_plus]
    simp
  · rw [numeral_minus]
    simp
  · rename_i cs hne
    rw [hdigits, numeral_plus]
    have hne : cs ≠ [] := hne
    simp [hne, withSign, and_assoc]
  · rename_i cs hne
    have hne : cs ≠ [] := hne
    rw [numeral_minus]
    by_cases hs : T.signed = true
    · rw [if_pos hs, hdigits]
      simp [hne, hs, withSign, and_assoc]
    · rw [if_neg hs, hdigits]
      have hnot : ¬ Digits ('-' :: cs) := not_digits rfl
      simp [hs, hnot]
  · rename_i hempty _ _ hplus hminus
    rw [hdigits, numeral_plain hplus hminus]
    have hne : cs ≠ [] := hempty
    simp [hne, withSign, and_assoc]

theorem parse_ok {fromStr : String → Except String T} :
    parse fromStr key text = .ok a ↔ fromStr text = .ok a := by
  rw [parse]
  cases fromStr text <;> simp

theorem ZstdLevel.new_ok {l : ZstdLevel} : ZstdLevel.new n = .ok l ↔ n = l.level := by
  obtain ⟨level, hl⟩ := l
  rw [ZstdLevel.new]
  constructor
  · intro he
    split at he
    · simp only [Except.ok.injEq, ZstdLevel.mk.injEq] at he
      simp only
      omega
    · cases he
  · rintro rfl
    have hl' : 1 ≤ (level : Int).toNat ∧ (level : Int).toNat ≤ 22 := hl
    rw [dif_pos hl']
    rfl

/-- An unsigned type with the numbers below `limit`. -/
structure IntType.Unsigned (T : IntType) (limit : Nat) : Prop where
  signed : T.signed = false
  pos : 0 < limit
  holds : ∀ n : Int, T.Holds n ↔ 0 ≤ n ∧ n < limit

theorem IntType.u16_unsigned : IntType.u16.Unsigned (2 ^ 16) := by
  refine ⟨rfl, by decide, fun n => ?_⟩
  simp only [IntType.Holds, IntType.u16]
  omega

theorem IntType.u64_unsigned : IntType.u64.Unsigned (2 ^ 64) := by
  refine ⟨rfl, by decide, fun n => ?_⟩
  simp only [IntType.Holds, IntType.u64]
  omega

theorem IntType.usize_unsigned : IntType.usize.Unsigned (2 ^ 64) :=
  IntType.u64_unsigned

theorem IntType.Unsigned.parse_iff {T : IntType} {i : Int} (hT : T.Unsigned limit) :
    parse T.fromStr key text = .ok i ↔
      ∃ n : Nat, i = n ∧ Numeral false text.toList n ∧ n < limit := by
  have hpos := hT.pos
  rw [parse_ok, IntType.fromStr_iff ((hT.holds 0).2 (by omega)), hT.holds, hT.signed]
  constructor
  · rintro ⟨hn, hzero, hlt⟩
    obtain ⟨n, rfl⟩ := Int.eq_ofNat_of_zero_le hzero
    exact ⟨n, rfl, hn, by omega⟩
  · rintro ⟨n, rfl, hn, hlt⟩
    exact ⟨hn, by omega, by omega⟩

namespace Settings
variable {Addr : Type} {get : String → Option String} {parseAddr : String → Except String Addr}

theorem required_ok : required get key = .ok text ↔ get key = some text := by
  rw [required]
  cases get key <;> simp

/-- The number a variable is set to, if it is set. -/
inductive Number (get : String → Option String) (key : String) (signed : Bool) :
    Option Nat → Prop where
  | unset (hk : get key = none) : Number get key signed none
  | set (n : Nat) (hk : get key = some text) (hn : Numeral signed text.toList n) :
      Number get key signed (some n)

theorem dbPort_ok : dbPort get = .ok i ↔
    ∃ r, Number get "DB_PORT" false r ∧ i = (r.getD 5432 : Nat) ∧ r.getD 5432 < 2 ^ 16 := by
  rw [dbPort]
  constructor
  · intro he
    split at he
    · rename_i text hk
      obtain ⟨n, rfl, hn, hlt⟩ := IntType.u16_unsigned.parse_iff.1 he
      exact ⟨some n, .set n hk hn, rfl, hlt⟩
    · rename_i hk
      cases he
      exact ⟨none, .unset hk, rfl, by decide⟩
  · rintro ⟨r, hr, rfl, hlt⟩
    cases hr with
    | unset hk => rw [hk]; rfl
    | set n hk hn =>
      rw [hk]
      exact IntType.u16_unsigned.parse_iff.2 ⟨n, rfl, hn, hlt⟩

theorem compressionLevel_ok {l : ZstdLevel} : compressionLevel get = .ok l ↔
    ∃ r, Number get "COMPRESSION_LEVEL" true r ∧ l.level = r.getD 3 := by
  have hholds : ∀ n : Nat, n ≤ 22 → IntType.i64.Holds n := by
    intro n hn
    simp only [IntType.Holds, IntType.i64]
    omega
  have hzero := hholds 0 (Nat.zero_le 22)
  rw [compressionLevel]
  constructor
  · intro he
    split at he
    · rename_i text hk
      obtain ⟨i, hi, hl⟩ := except_bind_ok.1 he
      rw [ZstdLevel.new_ok] at hl
      subst hl
      rw [parse_ok, IntType.fromStr_iff hzero] at hi
      exact ⟨some l.level, .set _ hk hi.1, rfl⟩
    · rename_i hk
      cases he
      exact ⟨none, .unset hk, rfl⟩
  · rintro ⟨r, hr, hl⟩
    cases hr with
    | unset hk =>
      rw [hk]
      obtain ⟨level, _⟩ := l
      cases hl
      rfl
    | set n hk hn =>
      rw [hk]
      refine except_bind_ok.2 ⟨n, ?_, ZstdLevel.new_ok.2 (congrArg Nat.cast hl.symm)⟩
      rw [parse_ok, IntType.fromStr_iff hzero]
      have hmax := l.inRange.2
      rw [hl] at hmax
      exact ⟨hn, hholds n hmax⟩

theorem positive_ok (hT : T.Unsigned limit) : positive get T key = .ok r ↔
    Number get key false r ∧ ∀ n, r = some n → 0 < n ∧ n < limit := by
  rw [positive]
  constructor
  · intro he
    split at he
    · rename_i hk
      cases he
      exact ⟨.unset hk, fun n hn => nomatch hn⟩
    · rename_i text hk
      obtain ⟨i, hi, he⟩ := except_bind_ok.1 he
      obtain ⟨n, rfl, hn, hlt⟩ := hT.parse_iff.1 hi
      split at he
      · cases he
      · rename_i hne
        cases he
        have hpos : n ≠ 0 := fun hz => hne (by rw [hz]; rfl)
        refine ⟨.set n hk hn, fun m hm => ?_⟩
        cases hm
        exact ⟨Nat.pos_of_ne_zero hpos, hlt⟩
  · rintro ⟨hr, hpos⟩
    cases hr with
    | unset hk =>
      rw [hk]
      rfl
    | set n hk hn =>
      obtain ⟨hn0, hlt⟩ := hpos n rfl
      rw [hk]
      refine except_bind_ok.2 ⟨n, hT.parse_iff.2 ⟨n, rfl, hn, hlt⟩, ?_⟩
      split
      · rename_i hzero
        omega
      · rfl

/-- All that the environment says about the settings it is read as. -/
structure Reads (get : String → Option String) (parseAddr : String → Except String Addr)
    (s : Settings Addr) : Prop where
  host : get "DB_HOST" = some s.db.host
  port : ∃ r, Number get "DB_PORT" false r ∧ s.db.port = r.getD 5432 ∧ s.db.port < 2 ^ 16
  user : get "DB_USERNAME" = some s.db.user
  password : get "DB_PASSWORD" = some s.db.password
  name : get "DB_NAME" = some s.db.name
  level : ∃ r, Number get "COMPRESSION_LEVEL" true r ∧ s.compLevel.level = r.getD 3
  retention : Number get "DRIVE_RETENTION_COUNT" false s.retention ∧
    ∀ n, s.retention = some n → 0 < n ∧ n < 2 ^ 64
  timeout : ∃ r, Number get "PG_TIMEOUT_SECS" false r ∧ (∀ n, r = some n → 0 < n ∧ n < 2 ^ 64) ∧
    s.pgTimeout = r.getD 3600 * 1000000000
  addr : parseAddr ((get "LISTEN_ADDR").getD "0.0.0.0:50051") = .ok s.listenAddr
  creds : get "DRIVE_CREDS" = some s.driveCreds
  folder : get "DRIVE_FOLDER_ID" = some s.driveFolderId
  data : s.dataFolder = (get "DATA_FOLDER").getD "data"

theorem fromSource_ok : fromSource get parseAddr = .ok s ↔ s.Reads get parseAddr := by
  simp only [fromSource, dbTarget, except_bind_ok, required_ok, dbPort_ok, compressionLevel_ok,
    positive_ok IntType.u64_unsigned, positive_ok IntType.usize_unsigned, parse_ok]
  constructor
  · rintro ⟨db, ⟨host, hhost, port, ⟨p, hp, rfl, hport⟩, user, huser, password, hpassword, name,
      hname, hdb⟩, level, ⟨l, hl, hlevel⟩, retention, hretention, timeout, htimeout, addr, haddr,
      creds, hcreds, folder, hfolder, hs⟩
    cases hdb
    cases hs
    exact ⟨hhost, ⟨p, hp, rfl, hport⟩, huser, hpassword, hname, ⟨l, hl, hlevel⟩, hretention,
      ⟨timeout, htimeout.1, htimeout.2, rfl⟩, haddr, hcreds, hfolder, rfl⟩
  · intro hr
    obtain ⟨p, hp, hport, hlt⟩ := hr.port
    obtain ⟨timeout, htimeout, hrange, hsecs⟩ := hr.timeout
    rw [hport] at hlt
    refine ⟨s.db, ⟨_, hr.host, _, ⟨p, hp, rfl, hlt⟩, _, hr.user, _, hr.password, _, hr.name, ?_⟩, _,
      hr.level, _, hr.retention, _, ⟨htimeout, hrange⟩, _, hr.addr, _, hr.creds, _, hr.folder, ?_⟩
    · rw [Int.toNat_natCast, ← hport]
      rfl
    · rw [← hr.data, ← hsecs]
      rfl

/-- The settings that some environment stands for. -/
structure Valid (parseAddr : String → Except String Addr) (s : Settings Addr) : Prop where
  addr : ∃ text, parseAddr text = .ok s.listenAddr
  port : s.db.port < 2 ^ 16
  retention : ∀ n, s.retention = some n → 0 < n ∧ n < 2 ^ 64
  timeout : ∃ secs, 0 < secs ∧ secs < 2 ^ 64 ∧ s.pgTimeout = secs * 1000000000

theorem Reads.valid {s : Settings Addr} (hr : s.Reads get parseAddr) : s.Valid parseAddr := by
  obtain ⟨_, _, _, hport⟩ := hr.port
  obtain ⟨r, _, hrange, hsecs⟩ := hr.timeout
  refine ⟨⟨_, hr.addr⟩, hport, hr.retention.2, r.getD 3600, ?_, ?_, hsecs⟩
  · cases r with
    | none => decide
    | some n => exact (hrange n rfl).1
  · cases r with
    | none => decide
    | some n => exact (hrange n rfl).2

/-- An environment with all variables set, where `addr` is the text of the address. -/
def env (s : Settings Addr) (addr : String) : String → Option String
  | "DB_HOST" => some s.db.host
  | "DB_PORT" => some (toString s.db.port)
  | "DB_USERNAME" => some s.db.user
  | "DB_PASSWORD" => some s.db.password
  | "DB_NAME" => some s.db.name
  | "COMPRESSION_LEVEL" => some (toString s.compLevel.level)
  | "DRIVE_RETENTION_COUNT" => s.retention.map toString
  | "PG_TIMEOUT_SECS" => some (toString (s.pgTimeout / 1000000000))
  | "LISTEN_ADDR" => some addr
  | "DRIVE_CREDS" => some s.driveCreds
  | "DRIVE_FOLDER_ID" => some s.driveFolderId
  | "DATA_FOLDER" => some s.dataFolder
  | _ => none

theorem number_toString (hk : get key = some (toString n)) : Number get key signed (some n) :=
  .set n hk (numeral_toString signed n)

/-- What is printed is read back. -/
theorem reads_env {s : Settings Addr} (hs : s.Valid parseAddr)
    (ha : parseAddr addr = .ok s.listenAddr) : s.Reads (s.env addr) parseAddr := by
  obtain ⟨secs, hpos, hlt, hsecs⟩ := hs.timeout
  have hdiv : s.pgTimeout / 1000000000 = secs := by
    rw [hsecs]
    exact Nat.mul_div_cancel secs (by decide)
  refine ⟨rfl, ⟨some s.db.port, number_toString rfl, rfl, hs.port⟩, rfl, rfl, rfl,
    ⟨some s.compLevel.level, number_toString rfl, rfl⟩, ⟨?_, hs.retention⟩,
    ⟨some secs, number_toString (by rw [← hdiv]; rfl), ?_, hsecs⟩, ha, rfl, rfl, rfl⟩
  · cases hr : s.retention with
    | none => exact .unset (congrArg (Option.map toString) hr)
    | some n => exact number_toString (congrArg (Option.map toString) hr)
  · intro n hn
    cases hn
    exact ⟨hpos, hlt⟩

end Settings

/-- An environment is accepted as `s` if and only if every required variable is set, every number is
a numeral in its range, and `s` has these values, with the defaults for what is not set. The ranges
are all that limits which settings an environment can stand for. -/
theorem settings_accepted {Addr : Type} (parseAddr : String → Except String Addr)
    (s : Settings Addr) :
    (∀ get, Settings.fromSource get parseAddr = .ok s ↔ s.Reads get parseAddr) ∧
    ((∃ get, Settings.fromSource get parseAddr = .ok s) ↔ s.Valid parseAddr) := by
  refine ⟨fun get => Settings.fromSource_ok, ?_, ?_⟩
  · rintro ⟨get, hget⟩
    exact (Settings.fromSource_ok.1 hget).valid
  · intro hs
    obtain ⟨addr, haddr⟩ := hs.addr
    exact ⟨s.env addr, Settings.fromSource_ok.2 (Settings.reads_env hs haddr)⟩

end FastBackup

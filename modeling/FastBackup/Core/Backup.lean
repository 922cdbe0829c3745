import Mathlib.Data.List.Sort

namespace FastBackup
set_option autoImplicit true

abbrev Bytes := List UInt8

/-- Nanoseconds. -/
abbrev Duration := Nat

/-- Nanoseconds since the Unix epoch, in UTC. -/
abbrev DateTime := Int

/-- A path of a local file. -/
abbrev Path := String

inductive Error where
  | config (msg : String)
  | notFound (msg : String)
  | failedPrecondition (msg : String)
  | busy (msg : String)
  | timeout (operation : String) (limit : Duration)
  | invalidArgument (msg : String)
  | storage (msg : String)
  | unavailable (msg : String)
  | process (program status stderr : String)
  | io (context source : String)
  deriving DecidableEq, Repr

theorem except_bind_ok {x : Except ε α} {f : α → Except ε β} :
    (x >>= f) = .ok b ↔ ∃ a, x = .ok a ∧ f a = .ok b := by
  cases x with
  | ok a => simp [bind, Except.bind]
  | error e => simp [bind, Except.bind]

def Error.isBusy : Error → Bool
  | .busy _ => true
  | _ => false

inductive BackupFormat where
  | pgCustom
  | legacyJsonZstd
  deriving DecidableEq, Repr

def BackupFormat.asStr : BackupFormat → String
  | .pgCustom => "pg_custom"
  | .legacyJsonZstd => "legacy_json_zstd"

def BackupFormat.parse (value : String) : Option BackupFormat :=
  if value = "pg_custom" then some .pgCustom
  else if value = "legacy_json_zstd" then some .legacyJsonZstd
  else none

theorem BackupFormat.parse_asStr (f : BackupFormat) : BackupFormat.parse f.asStr = some f := by
  cases f <;> rfl

inductive BackupKind where
  | regular
  | preRestore
  deriving DecidableEq, Repr

def BackupKind.asStr : BackupKind → String
  | .regular => "regular"
  | .preRestore => "pre_restore"

/-- A missing value is a regular backup, an unknown one is an error. -/
def BackupKind.parse : Option String → Except Error BackupKind
  | none => .ok .regular
  | some value =>
    if value = "regular" then .ok .regular
    else if value = "pre_restore" then .ok .preRestore
    else .error (.failedPrecondition ("unknown backup kind '" ++ value ++ "'"))

theorem BackupKind.parse_asStr (k : BackupKind) : BackupKind.parse (some k.asStr) = .ok k := by
  cases k <;> rfl

theorem BackupKind.parse_preRestore_iff (v : Option String) :
    BackupKind.parse v = .ok .preRestore ↔ v = some BackupKind.preRestore.asStr := by
  cases v with
  | none => simp [BackupKind.parse]
  | some v =>
    simp only [BackupKind.parse, BackupKind.asStr, Option.some.injEq]
    split
    · simp_all
    · split <;> simp_all

structure BackupInfo where
  id : String
  name : String
  createdAt : DateTime
  sizeBytes : Option Nat
  md5 : Option String
  format : BackupFormat
  kind : BackupKind
  deriving DecidableEq, Repr

structure Page (T : Type) where
  items : List T
  nextPageToken : Option String
  deriving Repr

/-- Whether a client that pages through a listing reads on after this page. -/
def Page.more (page : Page T) : Bool :=
  match page.nextPageToken with
  | some next => next ≠ ""
  | none => false

/-- Year, month and day of a day number, in the proleptic Gregorian calendar. -/
def civil (days : Int) : Int × Nat × Nat :=
  let z := days + 719468
  let era := z / 146097
  let doe := (z % 146097).toNat
  let yoe := (doe - doe / 1460 + doe / 36524 - doe / 146096) / 365
  let doy := doe - (365 * yoe + yoe / 4 - yoe / 100)
  let mp := (5 * doy + 2) / 153
  let m := if mp < 10 then mp + 3 else mp - 9
  (yoe + era * 400 + (if m ≤ 2 then 1 else 0), m, doy - (153 * mp + 2) / 5 + 1)

def pad (width n : Nat) : String :=
  String.ofList (List.replicate (width - (toString n).length) '0') ++ toString n

/-- A decimal fraction of the given number of digits, without the zeros at its end. -/
def fraction (width n : Nat) : String :=
  let digits := ((pad width n).toList.reverse.dropWhile (· = '0')).reverse
  if digits = [] then "" else "." ++ String.ofList digits

/-- A duration as `{:?}` prints it. -/
def debugDuration (d : Duration) : String :=
  let secs := d / 1000000000
  let nanos := d % 1000000000
  if 0 < secs then toString secs ++ fraction 9 nanos ++ "s"
  else if 1000000 ≤ nanos then
    toString (nanos / 1000000) ++ fraction 6 (nanos % 1000000) ++ "ms"
  else if 1000 ≤ nanos then toString (nanos / 1000) ++ fraction 3 (nanos % 1000) ++ "µs"
  else toString nanos ++ "ns"

/-- `%Y`: four digits, with a sign outside of 0..=9999. -/
def yearText (y : Int) : String :=
  if 0 ≤ y ∧ y < 10000 then pad 4 y.toNat
  else (if y < 0 then "-" else "+") ++ pad 4 y.natAbs

/-- The time as `%Y-%m-%d_%H:%M:%S`. -/
def nameTime (now : DateTime) : String :=
  let secs := now / 1000000000
  let (y, m, d) := civil (secs / 86400)
  let sod := (secs % 86400).toNat
  yearText y ++ "-" ++ pad 2 m ++ "-" ++ pad 2 d ++ "_" ++
    pad 2 (sod / 3600) ++ ":" ++ pad 2 (sod / 60 % 60) ++ ":" ++ pad 2 (sod % 60)

def backupFileName (dbName : String) (kind : BackupKind) (now : DateTime) : String :=
  let start := match kind with
    | .regular => ""
    | .preRestore => "pre_restore_"
  start ++ "backup_" ++ dbName ++ "_" ++ nameTime now ++ ".pgdump"

/-- The parts of a path between its slashes. -/
def splitSlash : List Char → List (List Char)
  | [] => [[]]
  | c :: cs =>
    if c = '/' then [] :: splitSlash cs
    else match splitSlash cs with
      | [] => [[c]]
      | w :: ws => (c :: w) :: ws

/-- `Path::file_name`: the last component, unless it is `..`. -/
def fileName (path : String) : Option (List Char) :=
  match ((splitSlash path.toList).filter (fun c => c ≠ [] ∧ c ≠ ['.'])).getLast? with
  | some ['.', '.'] => none
  | name => name

/-- `Path::extension`: the text after the last dot of the file name, if text stands before it. -/
def extension (path : String) : Option String :=
  match fileName path with
  | none => none
  | some name =>
    match name.reverse.dropWhile (· ≠ '.') with
    | _ :: _ :: _ => some (String.ofList (name.reverse.takeWhile (· ≠ '.')).reverse)
    | _ => none

/-- The stored format property wins; files without it are classified by extension. -/
def detectFormat (file : String) (formatProperty : Option String) : Except Error BackupFormat :=
  match formatProperty with
  | some value =>
    match BackupFormat.parse value with
    | some format => .ok format
    | none => .error (.failedPrecondition
        ("unknown backup format '" ++ value ++ "' of '" ++ file ++ "'"))
  | none =>
    match extension file with
    | some "pgdump" => .ok .pgCustom
    | some "dump" => .ok .legacyJsonZstd
    | _ => .error (.failedPrecondition ("could not detect backup format of '" ++ file ++ "'"))

/-- A local dump to store. -/
structure UploadRequest where
  path : Path
  name : String
  dbName : String
  format : BackupFormat
  kind : BackupKind
  deriving DecidableEq, Repr

def UploadRequest.pgDump (path : Path) (dbName : String) (kind : BackupKind) (now : DateTime) :
    UploadRequest where
  path := path
  name := backupFileName dbName kind now
  dbName := dbName
  format := .pgCustom
  kind := kind

/-- The order of `sort_by_key(|b| Reverse(b.created_at))`. -/
def newestFirst (a b : BackupInfo) : Prop := b.createdAt ≤ a.createdAt

instance : DecidableRel newestFirst := fun _ _ => inferInstanceAs (Decidable (_ ≤ _))

instance : Std.Total newestFirst := ⟨fun a b => le_total b.createdAt a.createdAt⟩

instance : IsTrans BackupInfo newestFirst :=
  ⟨fun _ _ _ hab hbc => le_trans (α := DateTime) hbc hab⟩

def prunable (b : BackupInfo) : Bool := b.kind = .regular ∧ b.format = .pgCustom

/-- The prunable backups, newest first; backups of equal age keep their order. -/
def ranked (backups : List BackupInfo) : List BackupInfo :=
  (backups.filter prunable).insertionSort newestFirst

/-- Regular pg_dump backups beyond the newest `keep`. -/
def retentionCandidates (backups : List BackupInfo) (keep : Nat) : List BackupInfo :=
  (ranked backups).drop keep

theorem mem_ranked : b ∈ ranked backups ↔ b ∈ backups ∧ prunable b = true := by
  rw [ranked, (List.perm_insertionSort ..).mem_iff, List.mem_filter]

theorem mem_of_candidate (hm : b ∈ retentionCandidates backups keep) :
    b ∈ backups ∧ prunable b = true :=
  mem_ranked.1 (List.mem_of_mem_drop hm)

theorem ranked_perm (backups : List BackupInfo) :
    (ranked backups).Perm (backups.filter prunable) :=
  List.perm_insertionSort ..

theorem ranked_sorted (backups : List BackupInfo) : (ranked backups).Pairwise newestFirst :=
  List.pairwise_insertionSort ..

end FastBackup

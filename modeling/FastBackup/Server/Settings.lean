import FastBackup.Server.Alone
import FastBackup.Server.Grpc
import FastBackup.Server.Shape
import Mathlib.Algebra.Ring.Int.Defs

namespace FastBackup
open Interaction
set_option autoImplicit true

/-- An integer type of Rust. -/
structure IntType where
  signed : Bool
  min : Int
  max : Int

def IntType.u16 : IntType := ⟨false, 0, 2 ^ 16 - 1⟩
def IntType.u64 : IntType := ⟨false, 0, 2 ^ 64 - 1⟩
def IntType.usize : IntType := ⟨false, 0, 2 ^ 64 - 1⟩
def IntType.i64 : IntType := ⟨true, -2 ^ 63, 2 ^ 63 - 1⟩

/-- The digit loop of `from_str`. -/
def IntType.digits (T : IntType) (negative : Bool) : Int → List Char → Except String Int
  | result, [] => .ok result
  | result, c :: cs =>
    if ¬ c.isDigit then .error "invalid digit found in string"
    else
      let digit : Int := (c.toNat - '0'.toNat : Nat)
      let result := if negative then result * 10 - digit else result * 10 + digit
      if T.max < result then .error "number too large to fit in target type"
      else if result < T.min then .error "number too small to fit in target type"
      else T.digits negative result cs

def IntType.fromStr (T : IntType) (value : String) : Except String Int :=
  match value.toList with
  | [] => .error "cannot parse integer from empty string"
  | ['+'] | ['-'] => .error "invalid digit found in string"
  | '+' :: cs => T.digits false 0 cs
  | '-' :: cs => if T.signed then T.digits true 0 cs else T.digits false 0 ('-' :: cs)
  | cs => T.digits false 0 cs

example : IntType.u16.fromStr "5433" = .ok 5433 := by decide +kernel
example : IntType.u16.fromStr "70000" = .error "number too large to fit in target type" := by
  decide +kernel
example : IntType.u16.fromStr "-1" = .error "invalid digit found in string" := by decide +kernel

/-- zstd level accepted by `pg_dump --compress=zstd:<level>`. -/
structure ZstdLevel where
  level : Nat
  inRange : 1 ≤ level ∧ level ≤ 22

def ZstdLevel.new (level : Int) : Except Error ZstdLevel :=
  if hl : 1 ≤ level.toNat ∧ level.toNat ≤ 22 then .ok ⟨level.toNat, hl⟩
  else .error (.config ("zstd level must be in 1..=22, " ++ toString level ++ " found"))

def ZstdLevel.default : ZstdLevel := ⟨3, by decide⟩

structure DbTarget where
  host : String
  port : Nat
  user : String
  password : String
  name : String
  deriving DecidableEq, Repr

structure Settings (Addr : Type) where
  listenAddr : Addr
  db : DbTarget
  compLevel : ZstdLevel
  driveCreds : String
  driveFolderId : String
  dataFolder : Path
  retention : Option Nat
  pgTimeout : Duration

def parse (fromStr : String → Except String T) (key value : String) : Except Error T :=
  match fromStr value with
  | .ok a => .ok a
  | .error e => .error (.config (key ++ ": invalid value '" ++ value ++ "': " ++ e))

namespace Settings
variable {Addr : Type} (get : String → Option String)

def required (key : String) : Except Error String :=
  match get key with
  | some value => .ok value
  | none => .error (.config (key ++ " is required"))

def dbPort : Except Error Int :=
  match get "DB_PORT" with
  | some v => parse IntType.u16.fromStr "DB_PORT" v
  | none => pure 5432

def dbTarget : Except Error DbTarget := do
  let host ← required get "DB_HOST"
  let port ← dbPort get
  let user ← required get "DB_USERNAME"
  let password ← required get "DB_PASSWORD"
  let name ← required get "DB_NAME"
  return ⟨host, port.toNat, user, password, name⟩

def compressionLevel : Except Error ZstdLevel :=
  match get "COMPRESSION_LEVEL" with
  | some v => do ZstdLevel.new (← parse IntType.i64.fromStr "COMPRESSION_LEVEL" v)
  | none => pure .default

/-- A number that must not be 0, if it is given. -/
def positive (T : IntType) (key : String) : Except Error (Option Nat) :=
  match get key with
  | none => pure none
  | some v => do
    match ← parse T.fromStr key v with
    | 0 => throw (.config (key ++ " must be positive"))
    | n => return some n.toNat

/-- `parseAddr` is `SocketAddr::from_str`. -/
def fromSource (parseAddr : String → Except String Addr) : Except Error (Settings Addr) := do
  let db ← dbTarget get
  let compLevel ← compressionLevel get
  let retention ← positive get .usize "DRIVE_RETENTION_COUNT"
  let pgTimeout ← positive get .u64 "PG_TIMEOUT_SECS"
  let listenAddr ← parse parseAddr "LISTEN_ADDR" ((get "LISTEN_ADDR").getD "0.0.0.0:50051")
  let driveCreds ← required get "DRIVE_CREDS"
  let driveFolderId ← required get "DRIVE_FOLDER_ID"
  return {
    listenAddr := listenAddr
    db := db
    compLevel := compLevel
    driveCreds := driveCreds
    driveFolderId := driveFolderId
    dataFolder := (get "DATA_FOLDER").getD "data"
    retention := retention
    pgTimeout := pgTimeout.getD (60 * 60) * 1000000000 }

end Settings

/-- The dependencies `main` gives to the service: the dumper and the restorer are one `PgTools` for
the configured database. -/
def Settings.deps (s : Settings Addr) : ServiceDeps where
  dumperDbName := s.db.name
  restorerDbName := s.db.name
  retention := s.retention

/-- The database name is the value of `DB_NAME`, as it is. -/
theorem Settings.db_name {get : String → Option String} {parseAddr : String → Except String Addr}
    (hs : Settings.fromSource get parseAddr = .ok s) : get "DB_NAME" = some s.db.name := by
  simp only [fromSource, dbTarget, except_bind_ok] at hs
  obtain ⟨db, ⟨_, _, _, _, _, _, _, _, name, hname, hdb⟩, _, _, _, _, _, _, _, _, _, _, _, _, hs⟩ :=
    hs
  cases hs
  cases hdb
  unfold required at hname
  split at hname
  · next value hv =>
    cases hname
    exact hv
  · cases hname

/-- A client that sets nothing but the target. -/
def unsetConfirm : Proto.RestoreRequest := ⟨some ⟨some (.latest true)⟩, ""⟩

/-- The pre-restore copy of a database with an empty name. -/
def emptyNameCopy : BackupInfo :=
  ⟨"b", backupFileName "" .preRestore 0, 1, none, none, .pgCustom, .preRestore⟩

/-- The calls by which a restore of `someBackup` overwrites a database with an empty name. -/
def emptyNameCalls (retention : Option Nat) : List Ev :=
  prepared ⟨"", "", retention⟩ .latest someBackup "f" "g" 0 emptyNameCopy ++
    [⟨.restore "f", .ok ()⟩, ⟨.dropFile "f", ()⟩, ⟨.unlock, ()⟩]

theorem emptyName_exec (retention : Option Nat) : ∃ h w',
    Exec (Alone mapPorts 0) ([], someWorld) (restore ⟨"", "", retention⟩ .latest "").run
      (emptyNameCalls retention) (.ret (.ok ⟨someBackup, emptyNameCopy⟩)) (h, w') ∧
    w'.db = [2] := by
  unfold restore
  simp only [ne_eq, not_true_eq_false, if_false]
  exact ⟨_, _,
    alone_cons (.locked rfl) <|
    alone_cons (.latest _ (notBusy_ok _) ⟨⟨[2], rfl⟩, rfl⟩) <|
    alone_cons (.tempFile rfl (by simp [someWorld])) <|
    alone_cons (.download [2] _ ⟨⟨someBackup, rfl⟩, rfl⟩) <|
    alone_cons (.tempFile rfl (by simp [someWorld, World.write])) <|
    alone_cons (.dump _ rfl) <|
    alone_cons (.now 0) <|
    alone_cons (.upload _ _ rfl (notBusy_ok _) ⟨rfl, rfl, rfl, rfl⟩) <|
    alone_cons .dropFile <|
    alone_cons (.restore [2] [2] rfl rfl) <|
    alone_cons .dropFile <|
    alone_cons .unlock <|
    .nil _ _, rfl⟩

/-- A service for a database with an empty name overwrites it without a confirmation. -/
theorem unsetConfirm_exec (s : Settings Addr) (hn : s.db.name = "") : ∃ h w' reply,
    Exec (Alone mapPorts 0) ([], someWorld) (GrpcBackup.restore s.deps unsetConfirm)
      (emptyNameCalls s.retention) (.ret (.ok reply)) (h, w') ∧ w'.db = [2] := by
  have hdeps : s.deps = ⟨"", "", s.retention⟩ := by rw [Settings.deps, hn]
  obtain ⟨h, w', hx, hdb⟩ := emptyName_exec s.retention
  rw [hdeps]
  exact ⟨h, w', _, hx.bind _, hdb⟩

/-- For every environment that is accepted: a restore request without a confirmation makes no dump,
upload, delete or restore call and returns an error, exactly when `DB_NAME` is not empty. -/
theorem unset_confirm_iff {Addr : Type} (parseAddr : String → Except String Addr)
    (get : String → Option String) (s : Settings Addr)
    (hs : Settings.fromSource get parseAddr = .ok s) :
    (∀ req : Proto.RestoreRequest, req.confirmDbName = "" →
      (∀ h e k, Runs (GrpcBackup.restore s.deps req) h (.call e k) → e.writes = false) ∧
      ∀ h r, Runs (GrpcBackup.restore s.deps req) h (.ret r) → ∃ status, r = .error status) ↔
    get "DB_NAME" ≠ some "" := by
  rw [Settings.db_name hs]
  constructor
  · intro hsafe he
    obtain ⟨_, _, _, hx, _⟩ := unsetConfirm_exec s (Option.some.inj he)
    obtain ⟨status, hstatus⟩ := (hsafe unsetConfirm rfl).2 _ _ hx.runs
    cases hstatus
  · intro hn req hreq
    have hbody : ∃ status, GrpcBackup.restore s.deps req = .ret (.error status) := by
      unfold GrpcBackup.restore
      cases backupTarget req.backup with
      | error status => exact ⟨status, rfl⟩
      | ok target =>
        have hne : req.confirmDbName ≠ s.deps.restorerDbName := by
          rw [hreq]
          exact fun he => hn (congrArg some he.symm)
        simp only [restore, if_pos hne]
        exact ⟨_, rfl⟩
    obtain ⟨status, hbody⟩ := hbody
    rw [hbody]
    constructor
    · intro h e k hr
      cases hr
    · intro h r hr
      cases hr
      exact ⟨status, rfl⟩

/-- The environment of a service for the database `name`. -/
def someEnv (name : String) (key : String) : Option String :=
  [("DB_HOST", "tracker-db"), ("DB_USERNAME", "tracker"), ("DB_PASSWORD", "secret"),
    ("DB_NAME", name), ("DRIVE_CREDS", "\x7b\x7d"), ("DRIVE_FOLDER_ID", "folder")].lookup key

theorem someEnv_accepted (name : String) :
    ∃ s, Settings.fromSource (someEnv name) (.ok : String → Except String String) = .ok s ∧
      s.db.name = name :=
  ⟨_, rfl, rfl⟩

/-- With a name for the database, a request without a confirmation fails. -/
theorem unset_confirm_refused : ∃ s,
    Settings.fromSource (someEnv "tracker") (.ok : String → Except String String) = .ok s ∧
    (∀ h e k, Runs (GrpcBackup.restore s.deps unsetConfirm) h (.call e k) → e.writes = false) ∧
    ∀ h r, Runs (GrpcBackup.restore s.deps unsetConfirm) h (.ret r) →
      ∃ status, r = .error status := by
  obtain ⟨s, hs, _⟩ := someEnv_accepted "tracker"
  exact ⟨s, hs, (unset_confirm_iff _ _ s hs).2 (by decide) unsetConfirm rfl⟩

/-- An empty `DB_NAME` is accepted, and a request without a confirmation overwrites the
database. -/
theorem unset_confirm_restores : ∃ s h w' reply,
    Settings.fromSource (someEnv "") (.ok : String → Except String String) = .ok s ∧
    unsetConfirm.confirmDbName = "" ∧
    Exec (Alone mapPorts 0) ([], someWorld) (GrpcBackup.restore s.deps unsetConfirm)
      (emptyNameCalls s.retention) (.ret (.ok reply)) (h, w') ∧
    someWorld.db = [1] ∧ w'.db = [2] := by
  obtain ⟨s, hs, hname⟩ := someEnv_accepted ""
  obtain ⟨h, w', reply, hx, hdb⟩ := unsetConfirm_exec s hname
  exact ⟨s, h, w', reply, hs, rfl, hx, rfl, hdb⟩

end FastBackup

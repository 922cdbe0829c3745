import FastBackup.Decimal.Numeral
import FastBackup.Server.Settings

namespace FastBackup
set_option autoImplicit true

structure PgCommand where
  program : String
  args : List String
  env : List (String × String)
  deriving DecidableEq, Repr

def pgDump : String := "pg_dump"
def pgRestore : String := "pg_restore"
def psql : String := "psql"
def connectTimeoutSecs : String := "10"

def connectionArgs (target : DbTarget) : List String :=
  ["--host", target.host, "--port", toString target.port, "--username", target.user, "--dbname",
    target.name, "--no-password"]

def connectionEnv (target : DbTarget) : List (String × String) :=
  [("PGPASSWORD", target.password), ("PGCONNECT_TIMEOUT", connectTimeoutSecs)]

def command (program : String) (flags : List String) (target : DbTarget) (tail : List String) :
    PgCommand :=
  ⟨program, flags ++ connectionArgs target ++ tail, connectionEnv target⟩

def dumpCommand (target : DbTarget) (level : ZstdLevel) (dst : Path) : PgCommand :=
  let compress := "--compress=zstd:" ++ toString level.level
  command pgDump ["--format=custom", compress, "--no-owner", "--no-privileges"] target
    ["--file", dst]

def restoreCommand (target : DbTarget) (src : Path) : PgCommand :=
  command pgRestore ["--clean", "--if-exists", "--no-owner", "--no-privileges",
    "--single-transaction", "--exit-on-error"] target [src]

def queryCommand (target : DbTarget) (sql : String) : PgCommand :=
  command psql ["--no-psqlrc", "--tuples-only", "--no-align", "--set=ON_ERROR_STOP=1"] target
    ["--command", sql]

/-- Targets that are the same up to their passwords. -/
def DbTarget.Alike (target target' : DbTarget) : Prop :=
  target.host = target'.host ∧ target.port = target'.port ∧ target.user = target'.user ∧
    target.name = target'.name

variable {target target' : DbTarget}

end FastBackup

import FastBackup.Pg.Args
import FastBackup.Pg.Tools

namespace FastBackup
open Interaction
set_option autoImplicit true

structure CommandOutput where
  success : Bool
  status : String
  stdout : String
  stderr : String
  deriving DecidableEq, Repr

/-- `timeout(limit, runner.run(cmd))`. -/
inductive PgCall where
  | run (cmd : PgCommand) (limit : Duration)

/-- No reply when the limit has passed; the child is killed then. -/
abbrev PgCall.Reply : PgCall → Type
  | .run _ _ => Option (Except Error CommandOutput)

abbrev Pg := Prog PgCall PgCall.Reply

def stderrLimit : Nat := 4096
def pingTimeout : Duration := 10 * 1000000000

def stderrTail (stderr : String) : String := (tail 4 stderr stderrLimit).getD ""

def execute (cmd : PgCommand) (limit : Duration) : Pg (Except Error String) := do
  match ← Prog.perform (.run cmd limit) with
  | none => return .error (.timeout cmd.program limit)
  | some (.error e) => return .error e
  | some (.ok out) =>
    if ¬ out.success then
      return .error (.process cmd.program out.status (stderrTail out.stderr))
    else
      return .ok out.stdout

/-- Runs PostgreSQL client binaries against one database. -/
structure PgTools where
  target : DbTarget
  level : ZstdLevel
  commandTimeout : Duration

/-- `str::trim`. -/
def trim (s : String) : String := String.ofList ((trimEnd s).toList.dropWhile isWhitespace)

namespace PgTools

def ping (self : PgTools) : Pg (Except Error Unit) := do
  match ← execute (queryCommand self.target "SELECT 1") pingTimeout with
  | .error e => return .error e
  | .ok out =>
    if trim out = "1" then return .ok ()
    else return .error (.failedPrecondition
      ("unexpected healthcheck result: '" ++ trim out ++ "'"))

def dump (self : PgTools) (dst : Path) : Pg (Except Error Unit) := do
  match ← execute (dumpCommand self.target self.level dst) self.commandTimeout with
  | .error e => return .error e
  | .ok _ => return .ok ()

def restore (self : PgTools) (src : Path) : Pg (Except Error Unit) := do
  match ← execute (restoreCommand self.target src) self.commandTimeout with
  | .error e => return .error e
  | .ok _ => return .ok ()

end PgTools

/-- What `execute` makes of the reply to its command. -/
def ran (cmd : PgCommand) (limit : Duration) :
    Option (Except Error CommandOutput) → Except Error String
  | none => .error (.timeout cmd.program limit)
  | some (.error e) => .error e
  | some (.ok out) =>
    if ¬ out.success then .error (.process cmd.program out.status (stderrTail out.stderr))
    else .ok out.stdout

theorem execute_eq (cmd : PgCommand) (limit : Duration) :
    execute cmd limit = .call (.run cmd limit) fun r => .ret (ran cmd limit r) := by
  rw [execute, Prog.perform_bind]
  congr 1
  funext r
  match r with
  | none => rfl
  | some (.error e) => rfl
  | some (.ok out) =>
    simp only [ran]
    split <;> rfl

/-- A call that only tells whether its command succeeded. -/
theorem execute_unit (cmd : PgCommand) (limit : Duration) :
    (do match ← execute cmd limit with
        | .error e => return .error e
        | .ok _ => return .ok () : Pg (Except Error Unit)) =
      .call (.run cmd limit) fun r => .ret ((ran cmd limit r).map fun _ => ()) := by
  rw [execute_eq, Prog.call_bind]
  congr 1
  funext r
  rw [Prog.ret_bind]
  cases ran cmd limit r <;> rfl

/-- The process was run, ended in time and reported success. -/
def Successful (r : Option (Except Error CommandOutput)) : Prop :=
  ∃ out, r = some (.ok out) ∧ out.success = true

theorem ran_success (cmd : PgCommand) (limit : Duration) (ho : out.success = true) :
    ran cmd limit (some (.ok out)) = .ok out.stdout := by
  simp [ran, ho]

theorem successful_of_ran (h : ran cmd limit r = .ok out) : Successful r := by
  match r with
  | none => cases h
  | some (.error e) => cases h
  | some (.ok out') =>
    by_cases ho : out'.success = true
    · exact ⟨out', rfl, ho⟩
    · simp [ran, ho] at h

end FastBackup

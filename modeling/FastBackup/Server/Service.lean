import FastBackup.Core.Backup
import FastBackup.Interaction.Safe

namespace FastBackup
open Interaction
set_option autoImplicit true

def defaultPageSize : Nat := 20
def maxPageSize : Nat := 100
def maxRetentionPages : Nat := 100
def chunkSize : Nat := 1024 * 1024

inductive BackupTarget where
  | id (id : String)
  | latest
  deriving DecidableEq, Repr

structure ServiceDeps where
  dumperDbName : String
  restorerDbName : String
  retention : Option Nat
  deriving DecidableEq, Repr

structure RestoreOutcome where
  restored : BackupInfo
  preRestore : BackupInfo
  deriving DecidableEq, Repr

inductive Code where
  | notFound
  | invalidArgument
  | failedPrecondition
  | aborted
  | unavailable
  | internal
  deriving DecidableEq, Repr

structure Status where
  code : Code
  message : String
  deriving DecidableEq, Repr

/-- `DownloadChunk`: the first message carries `info`, the rest carry `data`. -/
inductive DownloadChunk where
  | info (info : BackupInfo)
  | data (data : Bytes)
  deriving DecidableEq, Repr

/-- What the service asks of the world: the write lock and its guard, temporary files and their
destructors, the clock, the ports, the blocking decompression task, and the streaming of a
file to a client. -/
inductive Call where
  | tryLock
  | unlock
  | tempFile (suffix : String)
  | dropFile (file : Path)
  | now
  | dump (dst : Path)
  | upload (req : UploadRequest)
  | list (pageSize : Nat) (pageToken : Option String)
  | latest
  | get (id : String)
  | download (backup : BackupInfo) (dst : Path)
  | delete (id : String)
  | restore (src : Path)
  | decompress (src dst : Path)
  | openFile (file : Path)
  | read (limit : Nat)
  | send (item : Except Status DownloadChunk)

/-- The reply to a call. A local file operation fails with the text of the io error; the
decompression task fails as a task, or ends with the result of `decompress_file`; an open file
comes with the bytes it holds, a read with their number; a send tells whether the client is
still there. -/
abbrev Call.Reply : Call → Type
  | .tryLock => Bool
  | .unlock | .dropFile _ => Unit
  | .tempFile _ => Except String Path
  | .now => DateTime
  | .dump _ | .delete _ | .restore _ | .download _ _ => Except Error Unit
  | .upload _ | .get _ => Except Error BackupInfo
  | .list _ _ => Except Error (Page BackupInfo)
  | .latest => Except Error (Option BackupInfo)
  | .decompress _ _ => Except String (Except Error Unit)
  | .openFile _ => Except String Bytes
  | .read _ => Except String Nat
  | .send _ => Bool

/-- The calls that are awaited; the others return without suspending the caller. -/
def Call.awaits : Call → Bool
  | .tryLock | .unlock | .tempFile _ | .dropFile _ | .now => false
  | _ => true

instance (e : Call) : Nonempty e.Reply := by
  cases e with
  | tryLock | send => exact ⟨true⟩
  | unlock | dropFile => exact ⟨()⟩
  | now => exact ⟨(0 : Int)⟩
  | tempFile | decompress | openFile | read => exact ⟨.error ""⟩
  | _ => exact ⟨.error (.storage "")⟩

abbrev Svc := Prog Call Call.Reply
abbrev SvcE := ExceptT Error Svc

abbrev ask (e : Call) : Svc e.Reply := .perform e

def Dumper.dump (dst : Path) : SvcE Unit := .mk (ask (.dump dst))
def Restorer.restore (src : Path) : SvcE Unit := .mk (ask (.restore src))
def Storage.upload (req : UploadRequest) : SvcE BackupInfo := .mk (ask (.upload req))
def Storage.list (pageSize : Nat) (pageToken : Option String) : SvcE (Page BackupInfo) :=
  .mk (ask (.list pageSize pageToken))
def Storage.latest : SvcE (Option BackupInfo) := .mk (ask .latest)
def Storage.get (id : String) : SvcE BackupInfo := .mk (ask (.get id))
def Storage.download (backup : BackupInfo) (dst : Path) : SvcE Unit :=
  .mk (ask (.download backup dst))
def Storage.delete (id : String) : Svc (Except Error Unit) := ask (.delete id)
def Clock.now : SvcE DateTime := .lift (ask .now)

/-- `body` under the guard of `self.lock()?`. -/
def withLock (body : SvcE α) : SvcE α := .mk do
  if ← ask .tryLock then
    let r ← body.run
    let _ ← ask .unlock
    return r
  else
    return .error (.busy "another backup or restore is in progress")

def tempFile (suffix : String) : SvcE Path := .mk do
  match ← ask (.tempFile suffix) with
  | .ok file => return .ok file
  | .error e => return .error (.io "Could not create temporary file" e)

/-- `body` in the scope of a local `NamedTempFile`. -/
def inScope (file : Path) (body : SvcE α) : SvcE α := .mk do
  let r ← body.run
  let _ ← ask (.dropFile file)
  return r

/-- `body` in the scope of a `NamedTempFile` that is moved to the caller when `body` succeeds. -/
def handedOver (file : Path) (body : SvcE α) : SvcE α := .mk do
  match ← body.run with
  | .ok a => return .ok a
  | .error e =>
    let _ ← ask (.dropFile file)
    return .error e

def dumpAndUpload (deps : ServiceDeps) (kind : BackupKind) : SvcE BackupInfo := do
  let file ← tempFile ".pgdump"
  inScope file do
    Dumper.dump file
    let now ← Clock.now
    Storage.upload (.pgDump file deps.dumperDbName kind now)

/-- The rest of the page loop, with `n` pages left to read. -/
def listAllFrom : Nat → Option String → List BackupInfo → SvcE (List BackupInfo)
  | 0, _, _ => throw (.storage "more than 100 pages of backups")
  | n + 1, token, all => do
    let page ← Storage.list maxPageSize token
    let all := all ++ page.items
    match page.nextPageToken with
    | some next => if next ≠ "" then listAllFrom n (some next) all else return all
    | none => return all

def listAll : SvcE (List BackupInfo) := listAllFrom maxRetentionPages none []

/-- A failed delete is logged and the loop goes on. -/
def deleteAll : List BackupInfo → Svc Unit
  | [] => return ()
  | backup :: rest => do
    let _ ← Storage.delete backup.id
    deleteAll rest

def pruneOldBackups (deps : ServiceDeps) : Svc Unit :=
  match deps.retention with
  | none => return ()
  | some keep => do
    match ← listAll.run with
    | .ok all => deleteAll (retentionCandidates all keep)
    | .error _ => return ()

def createBackup (deps : ServiceDeps) : SvcE BackupInfo :=
  withLock do
    let info ← dumpAndUpload deps .regular
    .lift (pruneOldBackups deps)
    return info

def listBackups (pageSize : Nat) (pageToken : Option String) : SvcE (Page BackupInfo) :=
  Storage.list (if pageSize = 0 then defaultPageSize else min pageSize maxPageSize) pageToken

def resolve : BackupTarget → SvcE BackupInfo
  | .id id => Storage.get id
  | .latest => do
    match ← Storage.latest with
    | some info => return info
    | none => throw (.notFound "no backups")

def decompress (src dst : Path) : SvcE Unit := .mk do
  match ← ask (.decompress src dst) with
  | .ok r => return r
  | .error e => return .error (.storage ("Decompression task failed: " ++ e))

/-- The returned file still exists; it is removed when the caller drops it. -/
def download (target : BackupTarget) : SvcE (BackupInfo × Path) := do
  let info ← resolve target
  let file ← tempFile ".download"
  handedOver file (Storage.download info file)
  if info.format ≠ .legacyJsonZstd then
    return (info, file)
  inScope file do
    let json ← tempFile ".json"
    handedOver json (decompress file json)
    return (info, json)

def restore (deps : ServiceDeps) (target : BackupTarget) (confirmDbName : String) :
    SvcE RestoreOutcome :=
  if confirmDbName ≠ deps.restorerDbName then
    throw (.failedPrecondition
      ("confirm_db_name '" ++ confirmDbName ++ "' does not match the configured database"))
  else withLock do
    let restored ← resolve target
    if restored.format ≠ .pgCustom then
      throw (.failedPrecondition ("'" ++ restored.name ++ "' is " ++ restored.format.asStr ++
        "; restore it with DownloadBackup and the legacy client"))
    let file ← tempFile ".pgdump"
    inScope file do
      Storage.download restored file
      let preRestore ← dumpAndUpload deps .preRestore
      Restorer.restore file
      return ⟨restored, preRestore⟩

/-- The read loop of `stream_file` with `left` still to read. A read gives some of the bytes
left, none only at the end of the file. -/
def streamLoop (left : Bytes) : Svc Unit := do
  match ← ask (.read chunkSize) with
  | .ok n =>
    if _ : min n left.length = 0 then return ()
    else
      if ← ask (.send (.ok (.data (left.take n)))) then streamLoop (left.drop n)
  | .error e =>
    let _ ← ask (.send (.error ⟨.internal, "Could not read download: " ++ e⟩))
    return ()
termination_by left.length
decreasing_by
  rw [List.length_drop]
  omega

def streamFile (file : Path) : Svc Unit := do
  match ← ask (.openFile file) with
  | .ok content => streamLoop content
  | .error e =>
    let _ ← ask (.send (.error ⟨.internal, "Could not open download: " ++ e⟩))
    return ()

/-- `download_backup` and the streaming task it spawns, which owns the file. -/
def downloadBackup (target : BackupTarget) : Svc (Except Error Unit) := do
  match ← (download target).run with
  | .error e => return .error e
  | .ok (info, file) =>
    if ← ask (.send (.ok (.info info))) then streamFile file
    let _ ← ask (.dropFile file)
    return .ok ()

/-- The operations clients call. -/
inductive Op where
  | createBackup
  | restore (target : BackupTarget) (confirmDbName : String)
  | list (pageSize : Nat) (pageToken : Option String)
  | resolve (target : BackupTarget)
  | download (target : BackupTarget)
  | downloadBackup (target : BackupTarget)

/-- `create_backup` and `restore` dump or overwrite the database. -/
def Op.writing : Op → Bool
  | .createBackup | .restore _ _ => true
  | _ => false

inductive Outcome where
  | backup (r : Except Error BackupInfo)
  | restored (r : Except Error RestoreOutcome)
  | page (r : Except Error (Page BackupInfo))
  | file (r : Except Error (BackupInfo × Path))
  | streamed (r : Except Error Unit)

/-- An operation on a service with the given dependencies. -/
structure Request where
  deps : ServiceDeps
  op : Op

def Request.body (q : Request) : Svc Outcome :=
  match q.op with
  | .createBackup => Outcome.backup <$> (createBackup q.deps).run
  | .restore target confirm => Outcome.restored <$> (restore q.deps target confirm).run
  | .list size token => Outcome.page <$> (listBackups size token).run
  | .resolve target => Outcome.backup <$> (resolve target).run
  | .download target => Outcome.file <$> (download target).run
  | .downloadBackup target => Outcome.streamed <$> downloadBackup target

end FastBackup

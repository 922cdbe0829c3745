import FastBackup.Server.Service

namespace FastBackup
open Interaction
set_option autoImplicit true

/-- The text of an error, as the server logs it. -/
def Error.text : Error → String
  | .config msg => "configuration error: " ++ msg
  | .notFound msg => "not found: " ++ msg
  | .failedPrecondition msg => "precondition failed: " ++ msg
  | .busy msg => "busy: " ++ msg
  | .timeout operation limit => operation ++ " timed out after " ++ debugDuration limit
  | .invalidArgument msg => "invalid argument: " ++ msg
  | .storage msg => "storage error: " ++ msg
  | .unavailable msg => "storage unavailable: " ++ msg
  | .process program status stderr => "`" ++ program ++ "` failed with " ++ status ++ ": " ++ stderr
  | .io context source => context ++ ": " ++ source

/-- Map a domain error to a gRPC status; the client gets details only for errors it can act on. -/
def toStatus (context : String) (err : Error) : Status :=
  let msg := context ++ ": " ++ err.text
  match err with
  | .notFound _ => ⟨.notFound, msg⟩
  | .invalidArgument _ => ⟨.invalidArgument, msg⟩
  | .failedPrecondition _ => ⟨.failedPrecondition, msg⟩
  | .busy _ => ⟨.aborted, msg⟩
  | .timeout _ _ => ⟨.unavailable, msg⟩
  | .unavailable _ => ⟨.unavailable, context ++ ": storage unavailable, retry later"⟩
  | .storage _ | .config _ | .process _ _ _ | .io _ _ =>
    ⟨.internal, context ++ ": internal error, see server logs"⟩

example : (toStatus "Dump failed" (.notFound "db")).message = "Dump failed: not found: db" := rfl

namespace Proto

inductive BackupFormat where
  | unspecified
  | pgCustom
  | legacyJsonZstd
  deriving DecidableEq, Repr

inductive BackupKind where
  | unspecified
  | regular
  | preRestore
  deriving DecidableEq, Repr

structure Timestamp where
  seconds : Int
  nanos : Int
  deriving DecidableEq, Repr

structure BackupInfo where
  id : String
  name : String
  createdAt : Option Timestamp
  sizeBytes : Option Nat
  format : BackupFormat
  kind : BackupKind
  deriving DecidableEq, Repr

structure ListBackupsRequest where
  pageSize : Nat
  pageToken : String
  deriving DecidableEq, Repr

structure ListBackupsReply where
  backups : List BackupInfo
  nextPageToken : String
  deriving DecidableEq, Repr

inductive Target where
  | id (id : String)
  | latest (latest : Bool)
  deriving DecidableEq, Repr

structure BackupRef where
  target : Option Target
  deriving DecidableEq, Repr

inductive Payload where
  | info (info : BackupInfo)
  | data (data : Bytes)
  deriving DecidableEq, Repr

structure DownloadChunk where
  payload : Option Payload
  deriving DecidableEq, Repr

structure RestoreRequest where
  backup : Option BackupRef
  confirmDbName : String
  deriving DecidableEq, Repr

structure RestoreReply where
  restored : Option BackupInfo
  preRestoreBackup : Option BackupInfo
  deriving DecidableEq, Repr

end Proto

def backupInfo (info : BackupInfo) : Proto.BackupInfo where
  id := info.id
  name := info.name
  createdAt := some ⟨info.createdAt / 1000000000, info.createdAt % 1000000000⟩
  sizeBytes := info.sizeBytes
  format := match info.format with
    | .pgCustom => .pgCustom
    | .legacyJsonZstd => .legacyJsonZstd
  kind := match info.kind with
    | .regular => .regular
    | .preRestore => .preRestore

def backupTarget (backup : Option Proto.BackupRef) : Except Status BackupTarget :=
  match backup.bind Proto.BackupRef.target with
  | some (.id id) => if id ≠ "" then .ok (.id id) else .error noTarget
  | some (.latest true) => .ok .latest
  | _ => .error noTarget
where
  noTarget : Status := ⟨.invalidArgument, "backup must set a non-empty id or latest = true"⟩

/-- A message of the stream as it is sent. -/
def DownloadChunk.message : DownloadChunk → Proto.DownloadChunk
  | .info i => ⟨some (.info (backupInfo i))⟩
  | .data bytes => ⟨some (.data bytes)⟩

namespace GrpcBackup

/-- The result of a method of the service as the reply to a client. -/
def reply (context : String) (f : α → β) : Except Error α → Except Status β
  | .ok a => .ok (f a)
  | .error e => .error (toStatus context e)

def createBackup (deps : ServiceDeps) : Svc (Except Status Proto.BackupInfo) := do
  return reply "Backup failed" backupInfo (← (FastBackup.createBackup deps).run)

def listBackups (req : Proto.ListBackupsRequest) : Svc (Except Status Proto.ListBackupsReply) := do
  let token := if req.pageToken = "" then none else some req.pageToken
  let page ← (FastBackup.listBackups req.pageSize token).run
  return reply "Listing failed"
    (fun page => ⟨page.items.map backupInfo, page.nextPageToken.getD ""⟩) page

def getBackup (ref : Proto.BackupRef) : Svc (Except Status Proto.BackupInfo) := do
  match backupTarget (some ref) with
  | .error status => return .error status
  | .ok target => return reply "Getting backup failed" backupInfo (← (resolve target).run)

/-- The stream itself is what the task that `download_backup` starts sends. -/
def downloadBackup (ref : Proto.BackupRef) : Svc (Except Status Unit) := do
  match backupTarget (some ref) with
  | .error status => return .error status
  | .ok target => return reply "Download failed" id (← FastBackup.downloadBackup target)

def restore (deps : ServiceDeps) (req : Proto.RestoreRequest) :
    Svc (Except Status Proto.RestoreReply) := do
  match backupTarget req.backup with
  | .error status => return .error status
  | .ok target =>
    return reply "Restore failed"
      (fun out => ⟨some (backupInfo out.restored), some (backupInfo out.preRestore)⟩)
      (← (FastBackup.restore deps target req.confirmDbName).run)

end GrpcBackup

/-- The calls of clients. -/
inductive Rpc where
  | createBackup
  | listBackups (req : Proto.ListBackupsRequest)
  | getBackup (ref : Proto.BackupRef)
  | downloadBackup (ref : Proto.BackupRef)
  | restore (req : Proto.RestoreRequest)

inductive Response where
  | backup (info : Proto.BackupInfo)
  | backups (reply : Proto.ListBackupsReply)
  | stream
  | restored (reply : Proto.RestoreReply)

def Rpc.body (deps : ServiceDeps) : Rpc → Svc (Except Status Response)
  | .createBackup => Except.map .backup <$> GrpcBackup.createBackup deps
  | .listBackups req => Except.map .backups <$> GrpcBackup.listBackups req
  | .getBackup ref => Except.map .backup <$> GrpcBackup.getBackup ref
  | .downloadBackup ref => Except.map (fun _ => .stream) <$> GrpcBackup.downloadBackup ref
  | .restore req => Except.map .restored <$> GrpcBackup.restore deps req

/-- The operation a call of a client asks for. -/
def Rpc.op : Rpc → Except Status Op
  | .createBackup => .ok .createBackup
  | .listBackups req =>
    .ok (.list req.pageSize (if req.pageToken = "" then none else some req.pageToken))
  | .getBackup ref => (backupTarget (some ref)).map .resolve
  | .downloadBackup ref => (backupTarget (some ref)).map .downloadBackup
  | .restore req => (backupTarget req.backup).map (.restore · req.confirmDbName)

/-- What a client gets for the outcome of the operation. -/
def Rpc.answer : Rpc → Outcome → Except Status Response
  | .createBackup, .backup r => GrpcBackup.reply "Backup failed" (fun i => .backup (backupInfo i)) r
  | .getBackup _, .backup r =>
    GrpcBackup.reply "Getting backup failed" (fun i => .backup (backupInfo i)) r
  | .listBackups _, .page r => GrpcBackup.reply "Listing failed"
    (fun page => .backups ⟨page.items.map backupInfo, page.nextPageToken.getD ""⟩) r
  | .downloadBackup _, .streamed r => GrpcBackup.reply "Download failed" (fun _ => .stream) r
  | .restore _, .restored r => GrpcBackup.reply "Restore failed" (fun out =>
    .restored ⟨some (backupInfo out.restored), some (backupInfo out.preRestore)⟩) r
  | _, _ => .ok .stream

theorem GrpcBackup.map_reply {p : Svc (Except Error α)} {context : String} {f : α → β}
    {g : β → Response} {out : Except Error α → Outcome} {answer : Outcome → Except Status Response}
    (ha : ∀ r, answer (out r) = reply context (fun a => g (f a)) r) :
    (Except.map g <$> do return reply context f (← p)) = answer <$> out <$> p := by
  simp only [← bind_pure_comp, bind_assoc, pure_bind, ha]
  congr 1
  funext r
  cases r <;> rfl

/-- A call of a client is refused at once, or runs the operation it asks for. -/
theorem Rpc.body_eq (deps : ServiceDeps) (rpc : Rpc) : rpc.body deps = match rpc.op with
    | .error status => .ret (.error status)
    | .ok op => rpc.answer <$> Request.body ⟨deps, op⟩ := by
  cases rpc with
  | createBackup => exact GrpcBackup.map_reply fun _ => rfl
  | listBackups req => exact GrpcBackup.map_reply fun _ => rfl
  | getBackup ref =>
    simp only [Rpc.body, Rpc.op, GrpcBackup.getBackup]
    cases backupTarget (some ref) with
    | error status => rfl
    | ok target => exact GrpcBackup.map_reply fun _ => rfl
  | downloadBackup ref =>
    simp only [Rpc.body, Rpc.op, GrpcBackup.downloadBackup]
    cases backupTarget (some ref) with
    | error status => rfl
    | ok target => exact GrpcBackup.map_reply fun _ => rfl
  | restore req =>
    simp only [Rpc.body, Rpc.op, GrpcBackup.restore]
    cases backupTarget req.backup with
    | error status => rfl
    | ok target => exact GrpcBackup.map_reply fun _ => rfl

end FastBackup

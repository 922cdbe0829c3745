import FastBackup.GDrive.Retry

namespace FastBackup
open Interaction
set_option autoImplicit true

def latestPageSize : Nat := 10
def latestMaxPages : Nat := 10

/-- Backups stored in one Google Drive folder. `md5Hex` is the MD5 digest in hexadecimal. -/
structure GoogleDriveStorage where
  folderId : String
  requestTimeout : Duration
  uploadTimeout : Duration
  readIdleTimeout : Duration
  retry : RetryPolicy
  md5Hex : Bytes → String

namespace GoogleDriveStorage

/-- The files of a listing that are backups. -/
def page (list : FileList) : Page BackupInfo where
  items := (list.files.getD []).filterMap fun file => (toBackupInfo file).toOption
  nextPageToken := list.nextPageToken

def listOnce (self : GoogleDriveStorage) (query : String) (pageSize : Nat)
    (pageToken : Option String) : Drv (Except CallError (Page BackupInfo)) := do
  let r ← askDrive (.filesList query newestFirstOrder (min pageSize (2 ^ 31 - 1)) listFields
    pageToken)
  return (timed "Listing backups" self.requestTimeout r).map page

/-- A bad request is the client's error when the client sent a token. -/
def tokenError (pageToken : Option String) : CallError → CallError
  | .badRequest msg =>
    if pageToken.isSome then .permanent (.invalidArgument "invalid page_token")
    else .badRequest msg
  | e => e

def list (self : GoogleDriveStorage) (pageSize : Nat) (pageToken : Option String) :
    Drv (Except Error (Page BackupInfo)) :=
  FastBackup.retry self.retry do
    let r ← self.listOnce (folderQuery self.folderId) pageSize pageToken
    return r.mapError (tokenError pageToken)

/-- The page loop of `latest` with `n` pages left to read. -/
def latestFrom (self : GoogleDriveStorage) :
    Nat → Option String → Drv (Except Error (Option BackupInfo))
  | 0, _ => return .error (.failedPrecondition ("no backup among the newest " ++
      toString (latestPageSize * latestMaxPages) ++ " files in the folder"))
  | n + 1, token => do
    match ← FastBackup.retry self.retry
        (self.listOnce (latestQuery self.folderId) latestPageSize token) with
    | .error e => return .error e
    | .ok page =>
      match page.items with
      | newest :: _ => return .ok (some newest)
      | [] =>
        match page.nextPageToken with
        | some next => if next ≠ "" then self.latestFrom n (some next) else return .ok none
        | none => return .ok none

def latest (self : GoogleDriveStorage) : Drv (Except Error (Option BackupInfo)) :=
  self.latestFrom latestMaxPages none

def get (self : GoogleDriveStorage) (id : String) : Drv (Except Error BackupInfo) := do
  let r ← FastBackup.retry self.retry do
    let r ← askDrive (.filesGet id fileFields)
    return timed "Getting backup" self.requestTimeout r
  match r with
  | .error e => return .error e
  | .ok file =>
    if isInFolder file self.folderId then return toBackupInfo file
    else return .error (.notFound ("backup '" ++ id ++ "'"))

/-- The frame loop of a download, with the data written so far. -/
def receive (self : GoogleDriveStorage) (ending : Ending) :
    List Frame → Bytes → Drv (Except CallError Bytes)
  | [], hashed =>
    match ending with
    | .complete => return .ok hashed
    | .interrupted text => return .error (.transient ("Download interrupted: " ++ text))
    | .idle => return .error (.transient ("No download data for " ++
        debugDuration self.readIdleTimeout))
  | .trailers :: frames, hashed => self.receive ending frames hashed
  | .data bytes :: frames, hashed => do
    match ← askDrive (.writeFile bytes) with
    | .error e => return .error (.permanent (.io "Could not write download file" e))
    | .ok _ => self.receive ending frames (hashed ++ bytes)

def eqIgnoreAsciiCase (a b : String) : Bool :=
  a.toList.map Char.toLower = b.toList.map Char.toLower

/-- The end of a download: the digest of what was hashed is compared with the stored one. -/
def checkMd5 (self : GoogleDriveStorage) (backup : BackupInfo) (hashed : Bytes) :
    Except CallError Nat :=
  match backup.md5 with
  | none => .ok hashed.length
  | some expected =>
    let actual := self.md5Hex hashed
    if eqIgnoreAsciiCase actual expected then .ok hashed.length
    else .error (.transient ("Checksum mismatch for '" ++ backup.name ++ "': expected " ++
      expected ++ ", got " ++ actual))

/-- The part of a download after the response headers. -/
def save (self : GoogleDriveStorage) (backup : BackupInfo) (body : Body) :
    Drv (Except CallError Nat) := do
  match ← askDrive .createFile with
  | .error e => return .error (.permanent (.io "Could not create download file" e))
  | .ok _ =>
    match ← self.receive body.ending body.frames [] with
    | .error e => return .error e
    | .ok hashed =>
      match ← askDrive .flushFile with
      | .error e => return .error (.permanent (.io "Could not write download file" e))
      | .ok _ => return self.checkMd5 backup hashed

def downloadOnce (self : GoogleDriveStorage) (backup : BackupInfo) :
    Drv (Except CallError Nat) := do
  let r ← askDrive (.filesMedia backup.id)
  match timed "Downloading backup" self.requestTimeout r with
  | .error e => return .error e
  | .ok body => self.save backup body

def download (self : GoogleDriveStorage) (backup : BackupInfo) : Drv (Except Error Unit) := do
  let r ← FastBackup.retry self.retry (self.downloadOnce backup)
  return r.map fun _ => ()

def delete (self : GoogleDriveStorage) (id : String) : Drv (Except Error Unit) := do
  let r ← FastBackup.retry self.retry do
    let r ← askDrive (.filesDelete id)
    return timed "Deleting backup" self.requestTimeout r
  match r with
  | .ok _ | .error (.notFound _) => return .ok ()
  | .error e => return .error e

def escapeDebug (c : Char) : String :=
  if c = '\x00' then "\\0"
  else if c = '\t' then "\\t"
  else if c = '\n' then "\\n"
  else if c = '\r' then "\\r"
  else if c = '"' ∨ c = '\\' then String.ofList ['\\', c]
  else String.ofList [c]

/-- A path of printable characters as `{:?}` prints it. -/
def debugPath (path : Path) : String := "\"" ++ String.join (path.toList.map escapeDebug) ++ "\""

/-- Not retried: a repeated create would leave a duplicate file. -/
def upload (self : GoogleDriveStorage) (req : UploadRequest) (content : Bytes) :
    Drv (Except Error BackupInfo) := do
  match ← askDrive .openFile with
  | .error e => return .error (.io ("Could not open " ++ debugPath req.path) e)
  | .ok _ =>
    let r ← askDrive (.filesCreate (uploadMetadata req self.folderId) fileFields content)
    match timed "Uploading backup" self.uploadTimeout r with
    | .error e => return .error e.intoError
    | .ok created => return toBackupInfo created

end GoogleDriveStorage

end FastBackup

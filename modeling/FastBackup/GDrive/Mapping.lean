import FastBackup.Core.Name
import FastBackup.GDrive.Query

namespace FastBackup
set_option autoImplicit true

/-- `google_drive3::api::File`, with the fields that are read or written. -/
structure File where
  id : Option String := none
  name : Option String := none
  createdTime : Option DateTime := none
  size : Option Int := none
  md5Checksum : Option String := none
  appProperties : Option (List (String × String)) := none
  parents : Option (List String) := none
  trashed : Option Bool := none
  mimeType : Option String := none

def required (value : Option T) (field : String) : Except Error T :=
  match value with
  | some a => .ok a
  | none => .error (.storage ("Drive file has no '" ++ field ++ "'"))

def toBackupInfo (file : File) : Except Error BackupInfo := do
  let id ← required file.id "id"
  let name ← required file.name "name"
  let createdAt ← required file.createdTime "createdTime"
  let props := file.appProperties.getD []
  let format ← detectFormat name (props.lookup propFormat)
  let kind ← BackupKind.parse (props.lookup propKind)
  return {
    id, name, createdAt
    sizeBytes := file.size.bind fun s => if 0 ≤ s then some s.toNat else none
    md5 := file.md5Checksum
    format, kind }

def isInFolder (file : File) (folderId : String) : Bool :=
  file.trashed ≠ some true ∧ ∃ parents ∈ file.parents, folderId ∈ parents

def uploadMetadata (req : UploadRequest) (folderId : String) : File where
  name := some req.name
  parents := some [folderId]
  mimeType := some "application/octet-stream"
  appProperties := some [(propFormat, req.format.asStr), (propKind, req.kind.asStr),
    (propDbName, req.dbName)]

theorem except_ok_bind (a : α) (f : α → Except ε β) : (Except.ok a >>= f) = f a := rfl

theorem required_ok : required value field = .ok a ↔ value = some a := by
  cases value <;> simp [required]

/-- What a file that decodes has. -/
theorem toBackupInfo_ok (h : toBackupInfo file = .ok info) :
    file.id = some info.id ∧ file.name = some info.name ∧
      file.createdTime = some info.createdAt ∧
      detectFormat info.name ((file.appProperties.getD []).lookup propFormat) = .ok info.format ∧
      BackupKind.parse ((file.appProperties.getD []).lookup propKind) = .ok info.kind := by
  simp only [toBackupInfo, except_bind_ok, required_ok] at h
  obtain ⟨id, hid, name, hname, time, htime, format, hformat, kind, hkind, he⟩ := h
  cases he
  exact ⟨hid, hname, htime, hformat, hkind⟩

/-- A file as Drive completes it. -/
def File.completed (file : File) (id : String) (time : DateTime) (size : Option Int)
    (md5 : Option String) (trashed : Option Bool) : File :=
  { file with id := some id, createdTime := some time, size, md5Checksum := md5, trashed }

/-- The metadata of an upload, completed by Drive, decodes to its request. -/
theorem toBackupInfo_upload (req : UploadRequest) (folderId id : String) (time : DateTime)
    (size : Option Int) (md5 : Option String) (trashed : Option Bool) : ∃ info,
    toBackupInfo ((uploadMetadata req folderId).completed id time size md5 trashed) = .ok info ∧
      info.id = id ∧ info.name = req.name ∧ info.createdAt = time ∧ info.format = req.format ∧
      info.kind = req.kind := by
  have hf : detectFormat req.name (some req.format.asStr) = .ok req.format := by
    rw [detectFormat, BackupFormat.parse_asStr]
  have hk := BackupKind.parse_asStr req.kind
  have hlf : List.lookup propFormat [(propFormat, req.format.asStr), (propKind, req.kind.asStr),
      (propDbName, req.dbName)] = some req.format.asStr := rfl
  have hlk : List.lookup propKind [(propFormat, req.format.asStr), (propKind, req.kind.asStr),
      (propDbName, req.dbName)] = some req.kind.asStr := rfl
  simp [toBackupInfo, File.completed, uploadMetadata, required, hlf, hlk, hf, hk, bind, Except.bind,
    pure, Except.pure]

theorem isInFolder_upload (req : UploadRequest) (folderId id : String) (time : DateTime)
    (size : Option Int) (md5 : Option String) (ht : trashed ≠ some true) :
    isInFolder ((uploadMetadata req folderId).completed id time size md5 trashed) folderId =
      true := by
  simp [isInFolder, File.completed, uploadMetadata, ht]

/-- What is uploaded is read back as the same backup: the metadata of a dump, completed by Drive, is
in the folder and decodes to the same name, format and kind, and the name alone tells the same
format as the property. -/
theorem upload_read_back (path : Path) (dbName : String) (kind : BackupKind) (now : DateTime)
    (folderId id : String) (time : DateTime) (size : Option Int) (md5 : Option String)
    (ht : trashed ≠ some true) :
    isInFolder ((uploadMetadata (.pgDump path dbName kind now) folderId).completed id time size md5
      trashed) folderId = true ∧
    (∃ info, toBackupInfo ((uploadMetadata (.pgDump path dbName kind now) folderId).completed id
        time size md5 trashed) = .ok info ∧ info.id = id ∧
      info.name = (UploadRequest.pgDump path dbName kind now).name ∧ info.createdAt = time ∧
      info.format = .pgCustom ∧ info.kind = kind) ∧
    detectFormat (UploadRequest.pgDump path dbName kind now).name none = .ok .pgCustom := by
  refine ⟨?_, ?_, ?_⟩
  · exact isInFolder_upload _ folderId id time size md5 ht
  · exact toBackupInfo_upload _ folderId id time size md5 trashed
  · exact detectFormat_backupFileName dbName kind now

/-- A database whose name looks like a path to a dump of the old format. -/
theorem upload_read_back_path : ∃ info, toBackupInfo ((uploadMetadata
      (.pgDump "f" "x/.dump" .preRestore 0) "folder").completed "a" 0 none none (some false)) =
        .ok info ∧ info.format = .pgCustom ∧ info.kind = .preRestore ∧
    detectFormat info.name none = .ok .pgCustom := by
  have ht : some false ≠ some true := by decide
  obtain ⟨_, ⟨info, hi, _, hname, _, hformat, hkind⟩, hdetect⟩ :=
    upload_read_back "f" "x/.dump" .preRestore 0 "folder" "a" 0 none none ht
  exact ⟨info, hi, hformat, hkind, hname ▸ hdetect⟩

end FastBackup

import FastBackup.GDrive.Address
import FastBackup.GDrive.Retry
import FastBackup.Paging.Pager

namespace FastBackup
open Interaction Paging
set_option autoImplicit true

/-- A file or folder as Drive stores it. -/
structure Stored where
  id : String
  name : String
  createdTime : DateTime
  size : Option Int
  md5Checksum : Option String
  appProperties : Option (List (String × String))
  parents : Option (List String)
  trashed : Bool
  mimeType : String
  content : Bytes

/-- The files of Drive, newest first with one fixed order on ties. The ids that Drive gives to files
can stand in a URL as they are. -/
@[ext] structure Drive where
  files : List Stored
  nodup : (files.map Stored.id).Nodup
  sorted : files.Pairwise fun f g => g.createdTime ≤ f.createdTime
  addressed : ∀ f ∈ files, Addresses f.id f.id

def Stored.property (f : Stored) (key : String) : Option String :=
  (f.appProperties.getD []).lookup key

def Term.holds (f : Stored) : Term → Bool
  | .inParents id => id ∈ f.parents.getD []
  | .trashed value => f.trashed = value
  | .mimeTypeNot mime => f.mimeType ≠ mime
  | .lacksProperty key value => f.property key ≠ some value

/-- The files that meet a query, newest first. -/
def Drive.result (d : Drive) (query : String) : Option (List Stored) :=
  (readQuery query).map fun terms => d.files.filter fun f => terms.all (Term.holds f)

/-- The files of a folder that are not trashed; sub-folders are not among them. -/
def Drive.folder (d : Drive) (folderId : String) : List Stored :=
  d.files.filter fun f =>
    folderId ∈ f.parents.getD [] ∧ f.trashed = false ∧ f.mimeType ≠ folderMime

/-- Those that are not marked as pre-restore copies. -/
def Drive.candidates (d : Drive) (folderId : String) : List Stored :=
  (d.folder folderId).filter fun f => f.property propKind ≠ some BackupKind.preRestore.asStr

theorem Drive.result_folderQuery (d : Drive) (folderId : String) :
    d.result (folderQuery folderId) = some (d.folder folderId) := by
  simp only [Drive.result, readQuery_folderQuery, Option.map_some, Drive.folder, Option.some.injEq]
  congr 1
  funext f
  simp [Term.holds]

theorem Drive.result_latestQuery (d : Drive) (folderId : String) :
    d.result (latestQuery folderId) = some (d.candidates folderId) := by
  simp only [Drive.result, readQuery_latestQuery, Option.map_some, Drive.candidates, Drive.folder,
    List.filter_filter, Option.some.injEq]
  congr 1
  funext f
  simp [Term.holds, Bool.and_comm, Bool.and_assoc, Bool.and_left_comm]

theorem Drive.eq_of_id {d : Drive} (hf : f ∈ d.files) (hg : g ∈ d.files) (hid : f.id = g.id) :
    f = g :=
  List.inj_on_of_nodup_map d.nodup hf hg hid

/-- The names in a `fields` parameter. -/
def fieldNames (fields : String) : List String :=
  (fields.toList.splitOnP fun c => c = ',' ∨ c = '(' ∨ c = ')').map String.ofList

/-- The fields of a file that were asked for. -/
def Stored.answer (f : Stored) (names : List String) : File where
  id := if "id" ∈ names then some f.id else none
  name := if "name" ∈ names then some f.name else none
  createdTime := if "createdTime" ∈ names then some f.createdTime else none
  size := if "size" ∈ names then f.size else none
  md5Checksum := if "md5Checksum" ∈ names then f.md5Checksum else none
  appProperties := if "appProperties" ∈ names then f.appProperties else none
  parents := if "parents" ∈ names then f.parents else none
  trashed := if "trashed" ∈ names then some f.trashed else none
  mimeType := if "mimeType" ∈ names then some f.mimeType else none

def answerList (names : List String) (entries : List Stored) (next : Option String) : FileList where
  files := if "files" ∈ names then some (entries.map (Stored.answer · names)) else none
  nextPageToken := if "nextPageToken" ∈ names then next else none

/-- How Drive cuts results into pages; the tokens of further pages are not empty. -/
structure DrivePager extends Pager Stored String where
  nonempty : next l size token = some t → t ≠ ""

/-- The token of the next page in a reply: on the last page none, or an empty one. -/
def DrivePager.Next (D : DrivePager) (l : List Stored) (size : Nat) (token next : Option String) :
    Prop :=
  next = D.next l size token ∨ D.next l size token = none ∧ next = some ""

/-- The reply did not arrive. -/
def Lost (r : Timed T) : Prop :=
  r = none ∨ ∃ text, r = some (.error (.httpError text)) ∨ r = some (.error (.io text))

/-- Drive completed the metadata `file` of a new file. -/
structure Stored.Completes (f : Stored) (file : File) (content : Bytes) : Prop where
  name : file.name = some f.name
  appProperties : file.appProperties = f.appProperties
  parents : file.parents = f.parents
  mimeType : file.mimeType = some f.mimeType
  trashed : f.trashed = false
  content : f.content = content

/-- `d'` is `d` with `f` at some place. -/
def Drive.Inserted (d : Drive) (f : Stored) (d' : Drive) : Prop :=
  ∃ l₁ l₂, d.files = l₁ ++ l₂ ∧ d'.files = l₁ ++ f :: l₂

def Drive.remove (d : Drive) (id : String) : Drive where
  files := d.files.filter fun f => f.id ≠ id
  nodup := d.nodup.sublist (List.filter_sublist.map _)
  sorted := d.sorted.sublist List.filter_sublist
  addressed f hf := d.addressed f (List.mem_of_mem_filter hf)

/-- A delete request for `id` removes `f`. `DELETE files/trash` empties the trash. -/
def Removes (id : String) (f : Stored) : Prop :=
  Addresses id f.id ∨ Leads id "trash" ∧ f.trashed = true

instance {id : String} {f : Stored} : Decidable (Removes id f) :=
  inferInstanceAs (Decidable (_ ∨ _))

def Drive.erase (d : Drive) (id : String) : Drive where
  files := d.files.filter fun f => ¬ Removes id f
  nodup := d.nodup.sublist (List.filter_sublist.map _)
  sorted := d.sorted.sublist List.filter_sublist
  addressed f hf := d.addressed f (List.mem_of_mem_filter hf)

/-- What a delete request does and the reply it gets: a success, a 404 when there is nothing to
remove, another error response, no response because nothing was sent, or one that is lost. `S` are
the error responses that can come. -/
inductive Deletes (S : Nat → Option Json → Prop) (d : Drive) (id : String) :
    Timed Unit → Drive → Prop where
  -- what is no URL of a file may be that of something else
  | removed (hf : (∃ i, Addresses id i) → ∃ f ∈ d.files, Addresses id f.id) :
      Deletes S d id (some (.ok ())) (d.erase id)
  | missing (hs : S 404 body) (hn : ∀ f ∈ d.files, ¬ Removes id f) :
      Deletes S d id (some (.error (reported 404 body))) d
  | refused (hs : S status body) (hn : status ≠ 404) :
      Deletes S d id (some (.error (reported status body))) d
  | unsent (he : e = .missingToken text ∨ e = .other text) : Deletes S d id (some (.error e)) d
  | lost (hr : Lost r) : Deletes S d id r d
  | lostRemoved (hr : Lost r) : Deletes S d id r (d.erase id)

def Body.data (body : Body) : Bytes :=
  body.frames.flatMap fun frame => match frame with
    | .data bytes => bytes
    | .trailers => []

/-- Drive, and the local file of a download. -/
structure DriveWorld where
  drive : Drive
  dst : Option Bytes

/-- The replies a call can get, and what it does. Every request can fail; a create that was not
confirmed and a delete whose reply is lost may have taken effect. An error response to a delete is
taken for a 404 exactly if it is one. -/
inductive DriveStep (D : DrivePager) :
    DriveWorld → (e : DriveCall) → e.Reply → DriveWorld → Prop where
  | listOk (hq : w.drive.result q = some l) (hs : D.start token = some i)
      (hn : D.Next l size token next) :
      DriveStep D w (.filesList q newestFirstOrder size fields token)
        (some (.ok (answerList (fieldNames fields) (D.entries l size token) next))) w
  | listFail {r : Timed FileList} (hr : ∀ a, r ≠ some (.ok a)) :
      DriveStep D w (.filesList q orderBy size fields token) r w
  | getOk {id : String} (hf : f ∈ w.drive.files) (ha : Addresses id f.id) :
      DriveStep D w (.filesGet id fields) (some (.ok (f.answer (fieldNames fields)))) w
  -- what else a URL can name has no parents
  | getOther {id : String} (hn : ∀ i, ¬ Addresses id i) (hp : file.parents = none) :
      DriveStep D w (.filesGet id fields) (some (.ok file)) w
  | getFail {id : String} {r : Timed File} (hr : ∀ a, r ≠ some (.ok a)) :
      DriveStep D w (.filesGet id fields) r w
  | mediaOk {id : String} (hf : f ∈ w.drive.files) (ha : Addresses id f.id)
      (hp : body.data <+: f.content) (hc : body.ending = .complete → body.data = f.content) :
      DriveStep D w (.filesMedia id) (some (.ok body)) w
  | mediaFail {id : String} {r : Timed Body} (hr : ∀ a, r ≠ some (.ok a)) :
      DriveStep D w (.filesMedia id) r w
  | delete {id : String} {r : Timed Unit} (hd : Deletes HonestStatus w.drive id r d) :
      DriveStep D w (.filesDelete id) r { w with drive := d }
  | createOk (hf : f.Completes file content) (hi : w.drive.Inserted f d) :
      DriveStep D w (.filesCreate file fields content)
        (some (.ok (f.answer (fieldNames fields)))) { w with drive := d }
  | createFail {r : Timed File} (hr : ∀ a, r ≠ some (.ok a)) :
      DriveStep D w (.filesCreate file fields content) r w
  | createLost {r : Timed File} (hr : ∀ a, r ≠ some (.ok a)) (hf : f.Completes file content)
      (hi : w.drive.Inserted f d) :
      DriveStep D w (.filesCreate file fields content) r { w with drive := d }
  | openFile (r : Except String Unit) : DriveStep D w .openFile r w
  | createFile : DriveStep D w .createFile (.ok ()) { w with dst := some [] }
  | createFileFail : DriveStep D w .createFile (.error e) w
  | writeFile : DriveStep D w (.writeFile data) (.ok ()) { w with dst := w.dst.map (· ++ data) }
  | writeFileFail (hp : part <+: data) :
      DriveStep D w (.writeFile data) (.error e) { w with dst := w.dst.map (· ++ part) }
  | flushFile (r : Except String Unit) : DriveStep D w .flushFile r w
  | sleep : DriveStep D w (.sleep delay) () w

/-- The calls that leave Drive as it is. -/
def DriveCall.reads : DriveCall → Bool
  | .filesDelete _ | .filesCreate .. => false
  | _ => true

variable {D : DrivePager} {w w' : DriveWorld} {e : DriveCall} {r : e.Reply} {f : Stored}
  {info : BackupInfo}

theorem DriveStep.drive_eq (hs : DriveStep D w e r w') (he : e.reads = true) :
    w'.drive = w.drive := by
  cases hs with
  | delete | createOk | createFail | createLost => cases he
  | _ => rfl

/-- An id that addresses a file is not the trash. -/
theorem Addresses.not_trash {id i : String} (h : Addresses id i) : ¬ Leads id "trash" := by
  intro ht
  have hi := h.1.unique ht
  subst hi
  exact h.2 (by decide)

theorem Drive.mem_erase {d : Drive} {id : String} :
    f ∈ (d.erase id).files ↔ f ∈ d.files ∧ ¬ Removes id f := by
  simp [Drive.erase]

/-- A request for an id that Drive can give removes the file with that id. -/
theorem Drive.erase_eq_remove {id : String} (h : Addresses id id) (d : Drive) :
    d.erase id = d.remove id := by
  ext1
  apply List.filter_congr
  intro f _
  have hiff : Removes id f ↔ f.id = id := by
    constructor
    · rintro (ha | ⟨ht, _⟩)
      · exact ha.unique h
      · exact absurd ht h.not_trash
    · rintro hid
      rw [← hid] at h ⊢
      exact .inl h
  simp [hiff]

@[simp] theorem Drive.erase_erase (d : Drive) (id : String) :
    (d.erase id).erase id = d.erase id := by
  ext1
  simp [Drive.erase, List.filter_filter]

theorem Drive.erase_absent {id : String} (d : Drive) (hn : ∀ f ∈ d.files, ¬ Removes id f) :
    d.erase id = d := by
  ext1
  apply List.filter_eq_self.2
  intro f hf
  simpa using hn f hf

theorem Drive.absent_erase {id : String} (h : Addresses id id) (d : Drive) :
    id ∉ (d.erase id).files.map Stored.id := by
  intro hm
  obtain ⟨f, hf, he⟩ := List.mem_map.1 hm
  rw [← he] at h hf
  exact (Drive.mem_erase.1 hf).2 (.inl h)

theorem Deletes.effect {id : String} {d d' : Drive} {r : Timed Unit} (h : Deletes S d id r d') :
    d' = d ∨ d' = d.erase id := by
  cases h with
  | removed | lostRemoved => exact .inr rfl
  | missing | refused | unsent | lost => exact .inl rfl

/-- After a success, and after a response that was rightly taken for a 404, the file is gone. -/
theorem Deletes.gone {id : String} {d d' : Drive} {r : Timed Unit} (h : Deletes S d id r d')
    (hS : ∀ status body, S status body → (reported status body).isMissing → status = 404)
    (hr : r = some (.ok ()) ∨ ∃ e, r = some (.error e) ∧ e.isMissing) : d' = d.erase id := by
  have hlost : ¬ Lost r := by
    rintro (rfl | ⟨_, rfl | rfl⟩) <;> rcases hr with hr | ⟨_, hr, hm⟩ <;> cases hr <;> exact hm
  cases h with
  | removed => rfl
  | missing hs hn => rw [d.erase_absent hn]
  | refused hs hn =>
    rcases hr with hr | ⟨_, hr, hm⟩
    · cases hr
    · cases hr
      exact absurd (hS _ _ hs hm) hn
  | unsent he =>
    rcases hr with hr | ⟨_, hr, hm⟩
    · cases hr
    · cases hr
      rcases he with rfl | rfl <;> exact hm.elim
  | lost hr' => exact absurd hr' hlost
  | lostRemoved hr' => exact absurd hr' hlost

/-- The delete requests for `id` act on the files of a world as `Deletes` says. -/
structure Deleting (drive : σ → Drive) (S : Nat → Option Json → Prop) (id : String)
    (step : σ → (e : DriveCall) → e.Reply → σ → Prop) : Prop where
  request {r : Timed Unit} : step s (.filesDelete id) r s' → Deletes S (drive s) id r (drive s')
  sleep : step s (.sleep delay) u s' → drive s' = drive s

theorem driveStep_deleting (D : DrivePager) (id : String) :
    Deleting DriveWorld.drive HonestStatus id (DriveStep D) where
  request hs := by
    cases hs with
    | delete hd => exact hd
  sleep hs := hs.drive_eq rfl

set_option maxRecDepth 10000 in
theorem fieldNames_fileFields : fieldNames fileFields = ["id", "name", "createdTime", "size",
    "md5Checksum", "appProperties", "parents", "trashed"] := by
  have hfields : fileFields.toList = _ := String.toList_ofList
  rw [fieldNames, hfields]
  rfl

set_option maxRecDepth 10000 in
theorem fieldNames_listFields :
    fieldNames listFields = "nextPageToken" :: "files" :: (fieldNames fileFields ++ [""]) := by
  have hthree (s t u : String) : (s ++ t ++ u).toList = s.toList ++ t.toList ++ u.toList := by
    rw [String.toList_append, String.toList_append]
  have hlist : listFields.toList =
      "nextPageToken,files(".toList ++ fileFields.toList ++ ")".toList := hthree ..
  have hnames : fieldNames listFields = "nextPageToken" :: "files" :: (["id", "name",
      "createdTime", "size", "md5Checksum", "appProperties", "parents", "trashed"] ++ [""]) := by
    have hfiles : "nextPageToken,files(".toList = _ := String.toList_ofList
    have hfields : fileFields.toList = _ := String.toList_ofList
    have hend : ")".toList = _ := String.toList_ofList
    rw [fieldNames, hlist, hend, hfiles, hfields]
    rfl
  exact hnames.trans (congrArg (fun names => "nextPageToken" :: "files" :: (names ++ [""]))
    fieldNames_fileFields.symm)

/-- The file as the storage sees it. -/
def Stored.file (f : Stored) : File where
  id := some f.id
  name := some f.name
  createdTime := some f.createdTime
  size := f.size
  md5Checksum := f.md5Checksum
  appProperties := f.appProperties
  parents := f.parents
  trashed := some f.trashed

theorem Stored.answer_fileFields (f : Stored) : f.answer (fieldNames fileFields) = f.file := by
  rw [fieldNames_fileFields]
  simp [Stored.answer, Stored.file]

theorem Stored.answer_listFields (f : Stored) : f.answer (fieldNames listFields) = f.file := by
  rw [fieldNames_listFields, fieldNames_fileFields]
  simp [Stored.answer, Stored.file]

/-- The backup that a file is, if it is one. -/
def Stored.backup (f : Stored) : Option BackupInfo := (toBackupInfo f.file).toOption

theorem Stored.backup_eq_some : f.backup = some info ↔ toBackupInfo f.file = .ok info := by
  rw [Stored.backup]
  cases toBackupInfo f.file <;> simp [Except.toOption]

theorem Stored.backup_id (h : f.backup = some info) : info.id = f.id := by
  have hid := (toBackupInfo_ok (Stored.backup_eq_some.1 h)).1
  exact (Option.some.inj hid).symm

theorem Stored.backup_createdAt (h : f.backup = some info) : info.createdAt = f.createdTime := by
  have ht := (toBackupInfo_ok (Stored.backup_eq_some.1 h)).2.2.1
  exact (Option.some.inj ht).symm

/-- A backup is a pre-restore copy if and only if the query of `latest` leaves it out. -/
theorem Stored.backup_preRestore (h : f.backup = some info) :
    info.kind = .preRestore ↔ f.property propKind = some BackupKind.preRestore.asStr := by
  have hk := (toBackupInfo_ok (Stored.backup_eq_some.1 h)).2.2.2.2
  rw [← BackupKind.parse_preRestore_iff, show f.property propKind = _ from rfl, ← Except.ok.injEq]
  exact ⟨fun he => hk.trans he, fun he => hk.symm.trans he⟩

/-- A new file of an upload is a backup of the requested format and kind. -/
theorem Stored.Completes.backup {req : UploadRequest} {content : Bytes}
    (hf : f.Completes (uploadMetadata req folderId) content) : ∃ info,
    f.backup = some info ∧ info.format = req.format ∧ info.kind = req.kind := by
  obtain ⟨info, hi, _, _, _, hfmt, hk⟩ := toBackupInfo_upload req folderId f.id f.createdTime f.size
    f.md5Checksum (some f.trashed)
  refine ⟨info, Stored.backup_eq_some.2 ?_, hfmt, hk⟩
  have hn := hf.name
  have hp := hf.appProperties
  have hpar := hf.parents
  simp only [uploadMetadata] at hn hp hpar
  rw [← hi]
  simp only [toBackupInfo, Stored.file, File.completed, uploadMetadata, hn, hp]

end FastBackup

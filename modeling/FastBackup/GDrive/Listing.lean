import FastBackup.GDrive.Model

namespace FastBackup
open Interaction Paging
set_option autoImplicit true

/-- `items` is what the pages of `list` hold together, from `token` to the last page, over an
unchanged storage and with any page sizes. -/
inductive Listing (S : StorageModel St) (s : St) : Option String → List BackupInfo → Prop where
  | last (hx : S.exec s (.list size token) (.ok page) s) (hm : page.more = false) :
      Listing S s token page.items
  | more (hx : S.exec s (.list size token) (.ok page) s) (hm : page.more = true)
      (hl : Listing S s page.nextPageToken items) : Listing S s token (page.items ++ items)

variable {self : GoogleDriveStorage} {D : DrivePager} {d : Drive} {l : List Stored}

theorem DrivePager.Next.last {items : List T} (hn : D.Next l size token next)
    (hm : (Page.mk items next).more = false) : D.next l size token = none := by
  rcases hn with rfl | ⟨hn, _⟩
  · cases hnext : D.next l size token with
    | none => rfl
    | some t => simp [Page.more, hnext, D.nonempty hnext] at hm
  · exact hn

theorem DrivePager.Next.more {items : List T} (hn : D.Next l size token next)
    (hm : (Page.mk items next).more = true) :
    ∃ t, next = some t ∧ D.next l size token = some t := by
  rcases hn with rfl | ⟨_, rfl⟩
  · cases hnext : D.next l size token with
    | none => simp [Page.more, hnext] at hm
    | some t => exact ⟨t, rfl, rfl⟩
  · simp [Page.more] at hm

/-- The pages of `list` are the pages of the folder, without the files that are no backups. -/
theorem Listing.reads (hl : Listing (driveStorage self D) d token items) :
    ∃ files, D.Reads (d.folder self.folderId) token files ∧
      items = files.filterMap Stored.backup := by
  induction hl with
  | last hx hm =>
    obtain ⟨next, i, _, hn, rfl⟩ := GoogleDriveStorage.list_performs hx
    exact ⟨_, .last _ (hn.last hm), rfl⟩
  | more hx hm _ ih =>
    obtain ⟨files, hr, rfl⟩ := ih
    obtain ⟨next, i, _, hn, rfl⟩ := GoogleDriveStorage.list_performs hx
    obtain ⟨t, rfl, hgo⟩ := hn.more hm
    exact ⟨_, .more _ hgo hr, (List.filterMap_append ..).symm⟩

/-- A complete listing shows the backups of the folder, newest first. -/
theorem Listing.eq (hl : Listing (driveStorage self D) d none items) :
    items = (d.folder self.folderId).filterMap Stored.backup := by
  obtain ⟨files, hr, rfl⟩ := hl.reads
  rw [hr.eq_drop rfl, List.drop_zero]

/-- To leave out pre-restore copies in the query or after decoding is the same. -/
theorem Drive.candidates_backups (d : Drive) (folderId : String) :
    (d.candidates folderId).filterMap Stored.backup =
      ((d.folder folderId).filterMap Stored.backup).filter fun b => b.kind ≠ .preRestore := by
  rw [Drive.candidates, List.filterMap_filter, List.filter_filterMap]
  apply List.filterMap_congr
  intro f _
  cases hb : f.backup with
  | none => simp
  | some info =>
    have hk := Stored.backup_preRestore hb
    by_cases hp : info.kind = .preRestore
    · simp [Option.filter, hp, hk.1 hp]
    · have hne : f.property propKind ≠ some BackupKind.preRestore.asStr := fun h => hp (hk.2 h)
      simp [Option.filter, hp, hne]

namespace GoogleDriveStorage

theorem latestOutcome_error : latestOutcome D l n token = .error e ↔ e = noBackup ∧
    (∀ page ∈ D.pages l latestPageSize n token, page.filterMap Stored.backup = []) ∧
    D.goesOn l latestPageSize n token = true := by
  have hempty : (∀ page ∈ D.pages l latestPageSize n token, page.filterMap Stored.backup = []) ↔
      ((D.pages l latestPageSize n token).flatten.filterMap Stored.backup).head? = none := by
    rw [List.head?_eq_none_iff]
    simp only [List.filterMap_eq_nil_iff, List.mem_flatten]
    exact ⟨fun h f ⟨page, hp, hf⟩ => h page hp f hf, fun h page hp f hf => h f ⟨page, hp, hf⟩⟩
  rw [latestOutcome, hempty]
  cases ((D.pages l latestPageSize n token).flatten.filterMap Stored.backup).head? with
  | some newest => simp
  | none => cases D.goesOn l latestPageSize n token <;> simp [eq_comm]

/-- Drive can answer all listings of `latest`. -/
theorem latestFrom_runs (self : GoogleDriveStorage) (w : DriveWorld) (hs : D.start token = some i) :
    ∃ evs, Exec (DriveStep D) w (self.latestFrom n token) evs
      (.ret (latestOutcome D (w.drive.candidates self.folderId) n token)) w ∧
      WithinRetries evs := by
  induction n generalizing token i with
  | zero => exact ⟨[], .nil _ _, fun h ev he => by simp at he⟩
  | succ n ih =>
    let l := w.drive.candidates self.folderId
    let list := answerList (fieldNames listFields) (D.entries l latestPageSize token)
      (D.next l latestPageSize token)
    let ev : DriveEv := ⟨.filesList (latestQuery self.folderId) newestFirstOrder latestPageSize
      listFields token, some (.ok list)⟩
    have hlist : DriveStep D w ev.call ev.reply w :=
      .listOk (w.drive.result_latestQuery self.folderId) hs (.inl rfl)
    have hread : Exec (DriveStep D) w (FastBackup.retry self.retry (self.listOnce
        (latestQuery self.folderId) latestPageSize token)) [ev]
        (.ret (.ok ⟨(D.entries l latestPageSize token).filterMap Stored.backup,
          D.next l latestPageSize token⟩)) w := by
      rw [← page_answerList]
      exact exec_retry_ok hlist rfl
    have hrest : ∃ evs, Exec (DriveStep D) w (self.afterPage n
        (.ok ⟨(D.entries l latestPageSize token).filterMap Stored.backup,
          D.next l latestPageSize token⟩)) evs (.ret (latestOutcome D l (n + 1) token)) w ∧
        WithinRetries evs := by
      rw [latestOutcome, Pager.pages, Pager.goesOn, List.flatten_cons, List.filterMap_append]
      cases (D.entries l latestPageSize token).filterMap Stored.backup with
      | cons newest items => exact ⟨[], .nil _ _, withinRetries_nil⟩
      | nil =>
        cases hnext : D.next l latestPageSize token with
        | none => exact ⟨[], .nil _ _, withinRetries_nil⟩
        | some t =>
          obtain ⟨evs, hx, ha⟩ := ih (D.start_next hs hnext)
          refine ⟨evs, ?_, ha⟩
          simpa [afterPage, D.nonempty hnext, latestOutcome] using hx
    obtain ⟨evs, hx, ha⟩ := hrest
    exact ⟨_, (hread.bind (self.afterPage n)).append hx, ha.cons ⟨list, rfl⟩⟩

end GoogleDriveStorage

open GoogleDriveStorage

/-- `latest` and `list` agree on the newest backup that is no pre-restore copy, and `latest` gives
up exactly when its first ten pages hold no backup and there is another page. -/
theorem latest_agrees (hx : Exec (DriveStep D) ⟨d, dst⟩ self.latest evs (.ret r) w')
    (ha : WithinRetries evs) :
    (∀ b items, r = .ok (some b) → Listing (driveStorage self D) d none items →
      items.find? (fun i => i.kind ≠ .preRestore) = some b) ∧
    (∀ items, r = .ok none → Listing (driveStorage self D) d none items →
      ∀ i ∈ items, i.kind = .preRestore) ∧
    ((∃ msg, r = .error (.failedPrecondition msg)) ↔
      (∀ page ∈ D.pages (d.candidates self.folderId) 10 10 none,
        page.filterMap Stored.backup = []) ∧
      D.goesOn (d.candidates self.folderId) 10 10 none = true) := by
  have hr : r = latestOutcome D (d.candidates self.folderId) latestMaxPages none := by
    have hsteady := (Reading.steady reading_latestFrom hx).2
    rcases exec_latestFrom (steady_answers (d.result_latestQuery self.folderId)) hsteady with h | h
    · exact h
    · exact absurd ha h.2
  refine ⟨?_, ?_, ?_⟩
  · intro b items hb hl
    have hhead := latestOutcome_some (hr.symm.trans hb)
    rw [d.candidates_backups, ← hl.eq] at hhead
    rw [← List.head?_filter]
    exact hhead
  · intro items hn hl
    have hnil := latestOutcome_none (hr.symm.trans hn)
    rw [d.candidates_backups, ← hl.eq, List.filter_eq_nil_iff] at hnil
    intro i hi
    simpa using hnil i hi
  · constructor
    · rintro ⟨msg, he⟩
      exact (latestOutcome_error.1 (hr.symm.trans he)).2
    · intro h
      exact ⟨_, hr.trans (latestOutcome_error.2 ⟨rfl, h⟩)⟩

/-- A server that puts every result on one page. -/
def wholePager : DrivePager where
  pos _ := none
  count l _ _ := l.length
  next _ _ _ := none
  continues _ h := by cases h
  ends _ _ := Nat.le_add_left ..
  nonempty h := by cases h

/-- A server with one file on each page; the length of a token says where its page starts. -/
def singlePager : DrivePager where
  pos t := some t.length
  count _ _ _ := 1
  next l _ token :=
    if token.elim 0 String.length + 1 < l.length
      then some (String.ofList (List.replicate (token.elim 0 String.length + 1) 'p')) else none
  continues {l size token t i} hs hn := by
    split at hn
    · cases hn
      cases token with
      | none =>
        cases hs
        rfl
      | some token =>
        cases hs
        simp
    · cases hn
  ends {l size token i} hs hn := by
    split at hn
    · cases hn
    · rename_i hl
      cases token <;> cases hs <;> simpa using hl
  nonempty {l size token t} hn := by
    split at hn
    · cases hn
      simp [List.replicate_succ]
    · cases hn

def onceOnly : RetryPolicy :=
  ⟨1, 0, 0, by decide, durationLimit_pos, durationLimit_pos⟩

def someStorage : GoogleDriveStorage := ⟨"f", 0, 0, 0, onceOnly, fun _ => ""⟩

def someFile (id name mimeType : String) : Stored :=
  ⟨id, name, 0, none, none, none, some ["f"], false, mimeType, [1]⟩

def someDrive (mimeType : String) : Drive :=
  ⟨[someFile "a" "a.pgdump" mimeType], by simp, by simp, by simpa [someFile] using addresses_a⟩

theorem listing_someDrive (mimeType : String) :
    Listing (driveStorage someStorage wholePager) (someDrive mimeType) none
      (((someDrive mimeType).folder "f").filterMap Stored.backup) := by
  have hs : wholePager.start none = some 0 := rfl
  obtain ⟨evs, hx⟩ := list_runs someStorage ⟨someDrive mimeType, none⟩ 1 hs
  have hl : Listing (driveStorage someStorage wholePager) (someDrive mimeType) none _ :=
    .last ⟨none, evs, none, hx⟩ rfl
  rwa [wholePager.entries_last hs rfl, List.drop_zero] at hl

def plainMime : String := "application/octet-stream"

def someInfo : BackupInfo := ⟨"a", "a.pgdump", 0, none, none, .pgCustom, .regular⟩

theorem backup_someFile (mimeType : String) :
    (someFile "a" "a.pgdump" mimeType).backup = some someInfo := by
  change (someFile "a" "a.pgdump" "").backup = some someInfo
  decide +kernel

/-- A pre-restore copy, a file that is no backup, and two backups. -/
def crowdedDrive : Drive where
  files := [{ someFile "c" "c.pgdump" plainMime with
      createdTime := 1, appProperties := some [(propKind, BackupKind.preRestore.asStr)] },
    someFile "x" "x.txt" plainMime, someFile "a" "a.pgdump" plainMime,
    someFile "b" "b.dump" plainMime]
  nodup := by decide
  sorted := by decide
  addressed := by decide +kernel

/-- With one file on each page, `latest` finds the newest backup on its second page. -/
theorem latest_agrees_someDrive : ∃ evs w', Exec (DriveStep singlePager) ⟨crowdedDrive, none⟩
      someStorage.latest evs (.ret (.ok (some someInfo))) w' ∧ WithinRetries evs ∧
    ∀ items, Listing (driveStorage someStorage singlePager) crowdedDrive none items →
      items.find? (fun i => i.kind ≠ .preRestore) = some someInfo := by
  have hs : singlePager.start none = some 0 := rfl
  obtain ⟨evs, hx, ha⟩ := latestFrom_runs someStorage ⟨crowdedDrive, none⟩ hs
  have hr : latestOutcome singlePager (crowdedDrive.candidates "f") latestMaxPages none =
      .ok (some someInfo) := by
    decide +kernel
  have hx : Exec (DriveStep singlePager) ⟨crowdedDrive, none⟩ someStorage.latest evs _ _ := hx
  rw [show someStorage.folderId = "f" from rfl, hr] at hx
  exact ⟨evs, _, hx, ha, fun items hl => (latest_agrees hx ha).1 _ items rfl hl⟩

/-- The properties or the name of a file make it a backup. -/
def Stored.Decodes (f : Stored) : Prop :=
  (f.property propFormat = some "pg_custom" ∨ f.property propFormat = some "legacy_json_zstd" ∨
    f.property propFormat = none ∧
      (extension f.name = some "pgdump" ∨ extension f.name = some "dump")) ∧
  (f.property propKind = none ∨ f.property propKind = some "regular" ∨
    f.property propKind = some "pre_restore")

theorem detectFormat_ok (name : String) : (∃ format, detectFormat name value = .ok format) ↔
    value = some "pg_custom" ∨ value = some "legacy_json_zstd" ∨
      value = none ∧ (extension name = some "pgdump" ∨ extension name = some "dump") := by
  cases value with
  | some value =>
    by_cases hpg : value = "pg_custom"
    · simp [detectFormat, BackupFormat.parse, hpg]
    · by_cases hlegacy : value = "legacy_json_zstd"
      · simp [detectFormat, BackupFormat.parse, hlegacy]
      · simp [detectFormat, BackupFormat.parse, hpg, hlegacy]
  | none =>
    simp only [detectFormat]
    split <;> simp_all

theorem parseKind_ok : (∃ kind, BackupKind.parse value = .ok kind) ↔
    value = none ∨ value = some "regular" ∨ value = some "pre_restore" := by
  cases value with
  | none => simp [BackupKind.parse]
  | some value =>
    simp only [BackupKind.parse]
    split
    · simp_all
    · split <;> simp_all

theorem Stored.backup_iff (f : Stored) : (∃ info, f.backup = some info) ↔ f.Decodes := by
  rw [Stored.Decodes, ← detectFormat_ok f.name, ← parseKind_ok]
  constructor
  · rintro ⟨info, hb⟩
    obtain ⟨_, hname, _, hformat, hkind⟩ := toBackupInfo_ok (Stored.backup_eq_some.1 hb)
    rw [← Option.some.inj (show some f.name = some info.name from hname)] at hformat
    exact ⟨⟨_, hformat⟩, _, hkind⟩
  · rintro ⟨⟨format, hformat⟩, kind, hkind⟩
    have hformat : detectFormat f.name ((f.appProperties.getD []).lookup propFormat) = _ := hformat
    have hkind : BackupKind.parse ((f.appProperties.getD []).lookup propKind) = _ := hkind
    simp only [Stored.backup_eq_some, toBackupInfo, Stored.file, required, except_ok_bind, hformat,
      hkind]
    exact ⟨_, rfl⟩

theorem isInFolder_file (f : Stored) (folderId : String) : isInFolder f.file folderId = true ↔
    folderId ∈ f.parents.getD [] ∧ f.trashed = false := by
  cases hp : f.parents <;> simp [isInFolder, Stored.file, hp, and_comm]

/-- `get` and `list` see the same backup under `id`, unless the URL made from `id` addresses a file
of the folder that has another id, or a sub-folder, and whose name or properties make it look like
a backup. -/
theorem get_agrees_iff {id : String} (hl : Listing (driveStorage self D) d none items)
    (hx : Exec (DriveStep D) ⟨d, dst⟩ (self.get id) evs (.ret r) w')
    (ha : (∃ f ∈ d.files, Addresses id f.id) → WithinRetries evs) :
    (∀ info, r = .ok info ↔ info ∈ items ∧ info.id = id) ↔
      ¬ ∃ f ∈ d.files, Addresses id f.id ∧ (f.id ≠ id ∨ f.mimeType = folderMime) ∧
        f.trashed = false ∧ self.folderId ∈ f.parents.getD [] ∧ f.Decodes := by
  have hsteady := (Reading.steady reading_get hx).2
  have hitems : ∀ info, info ∈ items ↔ ∃ f ∈ d.files, (self.folderId ∈ f.parents.getD [] ∧
      f.trashed = false) ∧ f.mimeType ≠ folderMime ∧ f.backup = some info := by
    intro info
    rw [hl.eq]
    simp only [List.mem_filterMap, Drive.folder, List.mem_filter, decide_eq_true_eq]
    tauto
  constructor
  · rintro hagree ⟨f, hf, haddr, hodd, htrashed, hparent, hdecodes⟩
    obtain ⟨info, hb⟩ := f.backup_iff.2 hdecodes
    have hin := (isInFolder_file f self.folderId).2 ⟨hparent, htrashed⟩
    have hr := get_of_mem hsteady (ha ⟨f, hf, haddr⟩) hf haddr hin hb
    obtain ⟨hmem, hid⟩ := (hagree info).1 hr
    rw [Stored.backup_id hb] at hid
    obtain ⟨g, hg, _, hne, hgb⟩ := (hitems info).1 hmem
    have hgf : g = f := Drive.eq_of_id hg hf (by rw [← Stored.backup_id hgb, Stored.backup_id hb])
    rw [hgf] at hne
    rcases hodd with hother | hmime
    · exact hother hid
    · exact hne hmime
  · intro hnone info
    constructor
    · rintro rfl
      obtain ⟨f, hf, haddr, hin, hb⟩ := get_ok hsteady
      have hin := (isInFolder_file f self.folderId).1 hin
      have hplain : f.id = id ∧ f.mimeType ≠ folderMime := by
        rw [← not_not (a := f.id = id), ← not_or]
        exact fun hodd =>
          hnone ⟨f, hf, haddr, hodd, hin.2, hin.1, f.backup_iff.1 ⟨info, hb⟩⟩
      exact ⟨(hitems info).2 ⟨f, hf, hin, hplain.2, hb⟩, (Stored.backup_id hb).trans hplain.1⟩
    · rintro ⟨hm, rfl⟩
      obtain ⟨f, hf, hin, _, hb⟩ := (hitems info).1 hm
      have haddr : Addresses info.id f.id := by
        rw [Stored.backup_id hb]
        exact d.addressed f hf
      exact get_of_mem hsteady (ha ⟨f, hf, haddr⟩) hf haddr
        ((isInFolder_file f self.folderId).2 hin) hb

/-- `get` finds the one file of `someDrive`, of whatever type it is, by every id whose URL is that
of the file. -/
theorem get_someDrive {id : String} (ha : Addresses id "a") (mimeType : String) :
    ∃ evs w', Exec (DriveStep wholePager) ⟨someDrive mimeType, none⟩ (someStorage.get id) evs
      (.ret (.ok someInfo)) w' ∧ WithinRetries evs := by
  have hm : someFile "a" "a.pgdump" mimeType ∈ (someDrive mimeType).files := by simp [someDrive]
  have hin : isInFolder (someFile "a" "a.pgdump" mimeType).file "f" = true :=
    (isInFolder_file _ _).2 ⟨List.mem_singleton_self _, rfl⟩
  obtain ⟨evs, hx, hw⟩ := get_runs (D := wholePager) someStorage ⟨someDrive mimeType, none⟩ hm ha
  rw [found_ok.2 ⟨hin, backup_someFile mimeType⟩] at hx
  exact ⟨evs, _, hx, hw⟩

theorem get_agrees_someDrive : ∃ evs w', Exec (DriveStep wholePager) ⟨someDrive plainMime, none⟩
      (someStorage.get "a") evs (.ret (.ok someInfo)) w' ∧
    ∀ items, Listing (driveStorage someStorage wholePager) (someDrive plainMime) none items →
      someInfo ∈ items := by
  obtain ⟨evs, w', hx, ha⟩ := get_someDrive addresses_a plainMime
  refine ⟨evs, w', hx, ?_⟩
  intro items hl
  have hno : ¬ ∃ f ∈ (someDrive plainMime).files, Addresses "a" f.id ∧
      (f.id ≠ "a" ∨ f.mimeType = folderMime) ∧ f.trashed = false ∧
      someStorage.folderId ∈ f.parents.getD [] ∧ f.Decodes := by
    rintro ⟨f, hf, _, hodd, _⟩
    rw [someDrive, List.mem_singleton] at hf
    subst hf
    rcases hodd with hother | hmime
    · exact hother rfl
    · exact absurd hmime (by decide)
  exact (((get_agrees_iff hl hx fun _ => ha).2 hno someInfo).1 rfl).1

/-- `get` returns a sub-folder named like a backup, which `list` does not show, and by an id that is
a longer way to the file `a` it returns `a`. -/
theorem get_disagrees :
    (∃ evs w', Exec (DriveStep wholePager) ⟨someDrive folderMime, none⟩ (someStorage.get "a") evs
      (.ret (.ok someInfo)) w' ∧
      Listing (driveStorage someStorage wholePager) (someDrive folderMime) none []) ∧
    ∃ evs w', Exec (DriveStep wholePager) ⟨someDrive plainMime, none⟩ (someStorage.get "x/../a")
      evs (.ret (.ok someInfo)) w' ∧ someInfo.id = "a" := by
  constructor
  · obtain ⟨evs, w', hx, _⟩ := get_someDrive addresses_a folderMime
    exact ⟨evs, w', hx, listing_someDrive folderMime⟩
  · have ha : Addresses "x/../a" "a" := by decide +kernel
    obtain ⟨evs, w', hx, _⟩ := get_someDrive ha plainMime
    exact ⟨evs, w', hx, rfl⟩

end FastBackup

import FastBackup.GDrive.Spec

namespace FastBackup
open Interaction Paging
set_option autoImplicit true

namespace GoogleDriveStorage
variable {self : GoogleDriveStorage} {D : DrivePager} {w w' : DriveWorld} {f : Stored}

theorem list_eq : self.list size token = FastBackup.retry self.retry
    (.call (.filesList (folderQuery self.folderId) newestFirstOrder (min size (2 ^ 31 - 1))
      listFields token) fun r => .ret (((timed "Listing backups" self.requestTimeout r).map
        page).mapError (tokenError token))) := rfl

theorem map_page_ok {r : Timed FileList}
    (h : (timed op limit r).map page = .ok p) : ∃ list, r = some (.ok list) ∧ p = page list := by
  cases ht : timed op limit r with
  | error e =>
    rw [ht] at h
    cases h
  | ok list =>
    rw [ht] at h
    cases h
    exact ⟨list, (timed_ok op limit r).1 ht, rfl⟩

theorem mapError_ok {x : Except ε α} {f : ε → ε'} (h : x.mapError f = .ok a) : x = .ok a := by
  cases x with
  | ok b =>
    cases h
    rfl
  | error e => cases h

/-- A page that `list` returns is a page of what meets the folder's query. -/
theorem exec_list (ha : Answers D (folderQuery self.folderId) l step)
    (hx : Exec step s (self.list size token) evs (.ret (.ok p)) s') :
    ∃ next i, D.start token = some i ∧ D.Next l (min size (2 ^ 31 - 1)) token next ∧
      p = ⟨(D.entries l (min size (2 ^ 31 - 1)) token).filterMap Stored.backup, next⟩ := by
  rw [list_eq] at hx
  obtain ⟨s₁, r, evs₁, hs, _, hr⟩ := exec_retry_call hx
  obtain ⟨list, rfl, rfl⟩ := map_page_ok (mapError_ok (mapError_ok hr.symm))
  obtain ⟨next, i, hi, hn, rfl⟩ := ha _ _ _ _ _ _ hs
  exact ⟨next, i, hi, hn, page_answerList _ _⟩

/-- Drive can answer a listing. -/
theorem list_runs (self : GoogleDriveStorage) (w : DriveWorld) (size : Nat)
    (hs : D.start token = some i) : ∃ evs, Exec (DriveStep D) w (self.list size token) evs
      (.ret (.ok ⟨(D.entries (w.drive.folder self.folderId) (min size (2 ^ 31 - 1)) token).filterMap
          Stored.backup,
        D.next (w.drive.folder self.folderId) (min size (2 ^ 31 - 1)) token⟩)) w := by
  rw [← page_answerList, list_eq]
  have hlist : DriveStep D w (.filesList (folderQuery self.folderId) newestFirstOrder
      (min size (2 ^ 31 - 1)) listFields token) _ w :=
    .listOk (w.drive.result_folderQuery self.folderId) hs (.inl rfl)
  exact ⟨_, exec_retry_ok hlist rfl⟩

def noBackup : Error := .failedPrecondition ("no backup among the newest " ++
  toString (latestPageSize * latestMaxPages) ++ " files in the folder")

/-- What `latest` gives over the files `l` that meet its query, with `n` pages left. -/
def latestOutcome (D : DrivePager) (l : List Stored) (n : Nat) (token : Option String) :
    Except Error (Option BackupInfo) :=
  match ((D.pages l latestPageSize n token).flatten.filterMap Stored.backup).head? with
  | some newest => .ok (some newest)
  | none => if D.goesOn l latestPageSize n token then .error noBackup else .ok none

/-- The rest of the page loop after one page. -/
def afterPage (self : GoogleDriveStorage) (n : Nat) :
    Except Error (Page BackupInfo) → Drv (Except Error (Option BackupInfo))
  | .error e => .ret (.error e)
  | .ok page =>
    match page.items with
    | newest :: _ => .ret (.ok (some newest))
    | [] =>
      match page.nextPageToken with
      | some next => if next ≠ "" then self.latestFrom n (some next) else .ret (.ok none)
      | none => .ret (.ok none)

theorem latestFrom_succ : self.latestFrom (n + 1) token =
    (FastBackup.retry self.retry
      (self.listOnce (latestQuery self.folderId) latestPageSize token) >>= self.afterPage n) := rfl

theorem listOnce_latest : self.listOnce query latestPageSize token =
    .call (.filesList query newestFirstOrder latestPageSize listFields token)
      fun r => .ret ((timed "Listing backups" self.requestTimeout r).map page) := rfl

/-- What `latest` returns depends only on the files that meet its query, unless a listing fails for
good. -/
theorem exec_latestFrom (ha : Answers D (latestQuery self.folderId) l step)
    (hx : Exec step s (self.latestFrom n token) evs (.ret r) s') :
    r = latestOutcome D l n token ∨ (∃ e, r = .error e) ∧ ¬ WithinRetries evs := by
  induction n generalizing token s evs with
  | zero =>
    obtain ⟨_, he, _⟩ := exec_ret hx
    cases he
    exact .inl rfl
  | succ n ih =>
    rw [latestFrom_succ, listOnce_latest] at hx
    obtain ⟨res, s₁, evs₁, evs₂, hretry, hrest, rfl⟩ := exec_bind_ret hx
    obtain ⟨s₂, reply, evs₃, hs, rfl, rfl⟩ := exec_retry_call hretry
    cases hp : (timed "Listing backups" self.requestTimeout reply).map page with
    | error e =>
      -- the listing failed for good, so its request was the last one
      rw [hp] at hrest
      obtain ⟨rfl, he, _⟩ := exec_ret hrest
      cases he
      refine .inr ⟨⟨_, rfl⟩, ?_⟩
      intro hans
      obtain ⟨list, rfl⟩ := hans evs₃ _ (List.append_nil _)
      cases hp
    | ok p =>
      obtain ⟨list, rfl, rfl⟩ := map_page_ok hp
      obtain ⟨next, i, _, hn, rfl⟩ := ha _ _ _ _ _ _ hs
      rw [hp, page_answerList] at hrest
      rw [latestOutcome, Pager.pages, Pager.goesOn, List.flatten_cons, List.filterMap_append]
      cases hitems : (D.entries l latestPageSize token).filterMap Stored.backup with
      | cons newest items =>
        rw [hitems] at hrest
        obtain ⟨_, he, _⟩ := exec_ret hrest
        cases he
        exact .inl rfl
      | nil =>
        rw [hitems] at hrest
        rw [List.nil_append]
        cases hnext : D.next l latestPageSize token with
        | none =>
          have hend : Exec step s₁ (.ret (.ok none)) evs₂ (.ret r) s' := by
            rcases hn with rfl | ⟨_, rfl⟩
            · rwa [hnext] at hrest
            · exact hrest
          obtain ⟨_, he, _⟩ := exec_ret hend
          cases he
          exact .inl rfl
        | some t =>
          have ht : next = some t := by
            rcases hn with rfl | ⟨hne, _⟩
            · exact hnext
            · rw [hnext] at hne
              cases hne
          subst ht
          have hloop : Exec step s₁ (self.latestFrom n (some t)) evs₂ (.ret r) s' := by
            have hne := D.nonempty hnext
            simpa [afterPage, Except.mapError, hne] using hrest
          exact (ih hloop).imp_right fun h => ⟨h.1, fun hans => h.2 hans.tail⟩

/-- The end of `get`. -/
def found (self : GoogleDriveStorage) (id : String) : Except Error File → Except Error BackupInfo
  | .error e => .error e
  | .ok file =>
    if isInFolder file self.folderId then toBackupInfo file
    else .error (.notFound ("backup '" ++ id ++ "'"))

theorem get_eq {id : String} : self.get id = (FastBackup.retry self.retry
    (.call (.filesGet id fileFields) fun r =>
      .ret (timed "Getting backup" self.requestTimeout r)) >>=
      fun r => .ret (self.found id r)) := by
  rw [get]
  congr 1
  funext r
  cases r with
  | error e => rfl
  | ok file =>
    simp only [found]
    split <;> rfl

theorem exec_get {id : String} (hx : Exec step s (self.get id) evs (.ret res) s') :
    ∃ s₁ r evs₁, step s₁ (.filesGet id fileFields) r s' ∧ evs = evs₁ ++ [⟨_, r⟩] ∧
      res = self.found id ((timed "Getting backup" self.requestTimeout r).mapError
        CallError.intoError) := by
  rw [get_eq] at hx
  obtain ⟨_, s₁, evs₁, evs₂, hretry, hret, rfl⟩ := exec_bind_ret hx
  obtain ⟨s₂, r, evs₃, hs, rfl, rfl⟩ := exec_retry_call hretry
  obtain ⟨rfl, he, rfl⟩ := exec_ret hret
  cases he
  exact ⟨s₂, r, evs₃, hs, List.append_nil _, rfl⟩

theorem found_ok {id : String} : self.found id (.ok f.file) = .ok info ↔
    isInFolder f.file self.folderId = true ∧ f.backup = some info := by
  rw [found, Stored.backup_eq_some]
  split
  · rename_i hin
    simp [hin]
  · rename_i hin
    simp [hin]

/-- A backup that `get` returns is a file of the folder. -/
theorem get_ok {id : String} (hx : Exec (Steady D d) w (self.get id) evs (.ret (.ok info)) w') :
    ∃ f ∈ d.files, Addresses id f.id ∧ isInFolder f.file self.folderId = true ∧
      f.backup = some info := by
  obtain ⟨w₁, r, evs₁, ⟨rfl, hs⟩, _, hr⟩ := exec_get hx
  cases ht : timed "Getting backup" self.requestTimeout r with
  | error e =>
    rw [ht] at hr
    cases hr
  | ok file =>
    rw [ht] at hr
    rw [timed_ok] at ht
    subst ht
    cases hs with
    | getOk hf ha =>
      rw [Stored.answer_fileFields] at hr
      exact ⟨_, hf, ha, found_ok.1 hr.symm⟩
    | getOther _ hp =>
      rw [Except.mapError, found, if_neg (by simp [isInFolder, hp])] at hr
      cases hr
    | getFail hf => exact absurd rfl (hf file)

/-- And if Drive answers, `get` returns each such file. -/
theorem get_of_mem {id : String} (hx : Exec (Steady D d) w (self.get id) evs (.ret res) w')
    (hans : WithinRetries evs) (hf : f ∈ d.files) (ha : Addresses id f.id)
    (hin : isInFolder f.file self.folderId = true) (hb : f.backup = some info) :
    res = .ok info := by
  obtain ⟨w₁, r, evs₁, ⟨rfl, hs⟩, rfl, rfl⟩ := exec_get hx
  obtain ⟨file, rfl⟩ := hans _ _ rfl
  cases hs with
  | getOk hg hga =>
    rw [Stored.answer_fileFields, Drive.eq_of_id hg hf (hga.unique ha)]
    exact found_ok.2 ⟨hin, hb⟩
  | getOther hn => exact absurd ha (hn _)
  | getFail hr => exact absurd rfl (hr file)

/-- Drive can answer a `get`. -/
theorem get_runs (self : GoogleDriveStorage) (w : DriveWorld) {id : String}
    (hf : f ∈ w.drive.files) (ha : Addresses id f.id) :
    ∃ evs, Exec (DriveStep D) w (self.get id) evs (.ret (self.found id (.ok f.file))) w ∧
      WithinRetries evs := by
  rw [get_eq, ← Stored.answer_fileFields]
  have hget : DriveStep D w (.filesGet id fileFields) _ w := .getOk hf ha
  have hx : Exec (DriveStep D) w (FastBackup.retry self.retry (.call (.filesGet id fileFields)
      fun r => .ret (timed "Getting backup" self.requestTimeout r))) _
      (.ret (.ok (f.answer (fieldNames fileFields)))) w :=
    exec_retry_ok hget rfl
  exact ⟨_, (hx.bind _).append (.nil _ _), withinRetries_nil.cons ⟨_, rfl⟩⟩

/-- The end of `delete`: a missing file counts as deleted. -/
def deleted : Except Error Unit → Except Error Unit
  | .ok _ | .error (.notFound _) => .ok ()
  | .error e => .error e

theorem delete_eq {id : String} : self.delete id = (FastBackup.retry self.retry
    (.call (.filesDelete id) fun r => .ret (timed "Deleting backup" self.requestTimeout r)) >>=
      fun r => .ret (deleted r)) := by
  rw [delete]
  congr 1
  funext r
  cases r with
  | ok u => rfl
  | error e => cases e <;> rfl

/-- A delete returns `Ok` after a success and after what is taken for a 404. -/
theorem deleted_ok {r : Timed Unit} :
    deleted ((timed op limit r).mapError CallError.intoError) = .ok () ↔
      r = some (.ok ()) ∨ ∃ e, r = some (.error e) ∧ e.isMissing := by
  cases r with
  | none => simp [timed, Except.mapError, CallError.intoError, deleted]
  | some r =>
    cases r with
    | ok u => simp [timed, Except.mapError, deleted]
    | error e =>
      have hplain := classify_plain op e
      have hmissing := classify_missing op e
      simp only [timed, Except.mapError, Option.some.injEq, Except.error.injEq, exists_eq_left',
        reduceCtorEq, false_or]
      rw [← hmissing]
      cases hc : classify op e with
      | transient | badRequest => simp [CallError.intoError, deleted]
      | permanent err =>
        rw [hc] at hplain
        rcases hplain with ⟨msg, rfl⟩ | ⟨msg, rfl⟩ <;> simp [CallError.intoError, deleted]

section Delete
variable {σ : Type} {drive : σ → Drive} {S : Nat → Option Json → Prop} {id : String}
  {step : σ → (e : DriveCall) → e.Reply → σ → Prop} {s s' : σ}

/-- A delete has at most the effect of one request. -/
theorem delete_effect (hd : Deleting drive S id step) {p : Drv (Except Error Unit)}
    (hx : Exec step s (self.delete id) evs p s') :
    drive s' = drive s ∨ drive s' = (drive s).erase id := by
  let I (s₁ : σ) := drive s₁ = drive s ∨ drive s₁ = (drive s).erase id
  have hmakes : Makes (fun e => e = .filesDelete id ∨ (∃ delay, e = .sleep delay) ∨ e = .panic)
      (self.delete id) := by
    rw [delete_eq]
    exact ((Makes.once (.inl rfl)).retryLoop (fun delay => .inr (.inl ⟨delay, rfl⟩))
      (.inr (.inr rfl))).bind fun _ => trivial
  have hsame : ∀ s₁ s₂, drive s₂ = drive s₁ → I s₁ → I s₂ :=
    fun s₁ s₂ he hi => hi.imp he.trans he.trans
  have hI : ∀ s₁ e r s₂, (e = .filesDelete id ∨ (∃ delay, e = .sleep delay) ∨ e = .panic) → I s₁ →
      step s₁ e r s₂ → I s₂ := by
    rintro s₁ e r s₂ (rfl | ⟨delay, rfl⟩ | rfl) hi hs
    · rcases (hd.request hs).effect with he | he
      · exact hsame _ _ he hi
      · rcases hi with hi | hi
        · exact .inr (by rw [he, hi])
        · exact .inr (by rw [he, hi, Drive.erase_erase])
    · exact hsame _ _ (hd.sleep hs) hi
    · exact r.elim
  exact hmakes.invariant I hI hx (.inl rfl)

/-- And it has had it when it returns `Ok`, if what is taken for a 404 is one. -/
theorem delete_gone (hd : Deleting drive S id step)
    (hS : ∀ status body, S status body → (reported status body).isMissing → status = 404)
    (hx : Exec step s (self.delete id) evs (.ret (.ok ())) s') :
    drive s' = (drive s).erase id := by
  have hx' := hx
  rw [delete_eq] at hx'
  obtain ⟨_, s₁, evs₁, evs₂, hretry, hret, rfl⟩ := exec_bind_ret hx'
  obtain ⟨_, r, evs₃, _, rfl, rfl⟩ := exec_retry_call hretry
  obtain ⟨rfl, he, _⟩ := exec_ret hret
  -- the state in which the last request arrived
  rw [List.append_nil] at hx
  obtain ⟨s₂, k, hx₂, hs, _⟩ := exec_snoc hx
  have herased : (drive s₂).erase id = (drive s).erase id := by
    rcases delete_effect hd hx₂ with hs₂ | hs₂
    · rw [hs₂]
    · rw [hs₂, Drive.erase_erase]
  have hr := deleted_ok.1 (Prog.ret.inj he).symm
  exact ((hd.request hs).gone hS hr).trans herased

end Delete

theorem exec_delete {id : String} (hx : Exec (DriveStep D) w (self.delete id) evs (.ret res) w') :
    (w'.drive = w.drive ∨ w'.drive = w.drive.erase id) ∧
      (res = .ok () → w'.drive = w.drive.erase id) := by
  refine ⟨delete_effect (driveStep_deleting D id) hx, ?_⟩
  rintro rfl
  exact delete_gone (driveStep_deleting D id) (fun _ _ hs => hs.1) hx

/-- Drive can answer a `delete`. -/
theorem delete_runs (self : GoogleDriveStorage) (w : DriveWorld) {id : String}
    (hid : id ∈ w.drive.files.map Stored.id) : ∃ evs, Exec (DriveStep D) w (self.delete id) evs
      (.ret (.ok ())) { w with drive := w.drive.remove id } := by
  obtain ⟨f, hf, rfl⟩ := List.mem_map.1 hid
  have ha := w.drive.addressed f hf
  rw [delete_eq, ← Drive.erase_eq_remove ha]
  have hdelete : DriveStep D w (.filesDelete f.id) (some (.ok ())) _ :=
    .delete (.removed fun _ => ⟨f, hf, ha⟩)
  have hx : Exec (DriveStep D) w (FastBackup.retry self.retry (.call (.filesDelete f.id)
      fun r => .ret (timed "Deleting backup" self.requestTimeout r))) _ (.ret (.ok ())) _ :=
    exec_retry_ok hdelete rfl
  exact ⟨_, (hx.bind _).append (.nil _ _)⟩

theorem upload_eq : self.upload req content = .call .openFile fun r =>
    match r with
    | .error e => .ret (.error (.io ("Could not open " ++ debugPath req.path) e))
    | .ok _ => .call (.filesCreate (uploadMetadata req self.folderId) fileFields content) fun r =>
      match timed "Uploading backup" self.uploadTimeout r with
      | .error e => .ret (.error e.intoError)
      | .ok created => .ret (toBackupInfo created) := rfl

/-- An upload adds at most one file, and has added the one it returns. -/
theorem exec_upload (hx : Exec (DriveStep D) w (self.upload req content) evs (.ret res) w') :
    match res with
    | .ok info => ∃ f, f.Completes (uploadMetadata req self.folderId) content ∧
        w.drive.Inserted f w'.drive ∧ f.backup = some info
    | .error _ => w'.drive = w.drive ∨ ∃ f,
        f.Completes (uploadMetadata req self.folderId) content ∧ w.drive.Inserted f w'.drive := by
  rw [upload_eq] at hx
  obtain ⟨r, w₁, evs₁, hopen, hrest, _⟩ := exec_call_ret hx
  have hw₁ := hopen.drive_eq rfl
  cases r with
  | error e =>
    obtain ⟨_, he, rfl⟩ := exec_ret hrest
    cases he
    exact .inl hw₁
  | ok u =>
    obtain ⟨r, w₂, evs₂, hcreate, hend, _⟩ := exec_call_ret hrest
    rw [← hw₁]
    cases ht : timed "Uploading backup" self.uploadTimeout r with
    | error e =>
      simp only [ht] at hend
      obtain ⟨_, he, rfl⟩ := exec_ret hend
      cases he
      cases hcreate with
      | createOk => simp [timed] at ht
      | createFail => exact .inl rfl
      | createLost _ hf hi => exact .inr ⟨_, hf, hi⟩
    | ok created =>
      simp only [ht] at hend
      obtain ⟨_, he, rfl⟩ := exec_ret hend
      rw [timed_ok] at ht
      subst ht
      cases hcreate with
      | createOk hf hi =>
        obtain ⟨info, hinfo, _⟩ := hf.backup
        rw [Stored.answer_fileFields, Stored.backup_eq_some.1 hinfo] at he
        cases he
        exact ⟨_, hf, hi, hinfo⟩
      | createFail hr => exact absurd rfl (hr created)
      | createLost hr => exact absurd rfl (hr created)

/-- Drive can answer an upload. -/
theorem upload_runs (self : GoogleDriveStorage) (w : DriveWorld)
    (hf : f.Completes (uploadMetadata req self.folderId) content) (hi : w.drive.Inserted f d)
    (hb : f.backup = some info) : ∃ evs, Exec (DriveStep D) w (self.upload req content) evs
      (.ret (.ok info)) { w with drive := d } := by
  rw [upload_eq, ← Stored.backup_eq_some.1 hb, ← Stored.answer_fileFields]
  exact ⟨_, .cons (.openFile (.ok ())) (.cons (.createOk hf hi) (.nil _ _))⟩

end GoogleDriveStorage

end FastBackup

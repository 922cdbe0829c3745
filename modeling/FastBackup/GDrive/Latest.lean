import FastBackup.GDrive.Listing
import FastBackup.Server.Restore

namespace FastBackup
open Interaction Paging
set_option autoImplicit true

variable {St DB : Type} {P : Ports St DB} {self : GoogleDriveStorage} {D : DrivePager}
  {d d' : Drive}

/-- `d'` is `d` with one more copy that a restore made. -/
def CopyAdded (self : GoogleDriveStorage) (d d' : Drive) : Prop :=
  ∃ f req content, req.kind = .preRestore ∧
    f.Completes (uploadMetadata req self.folderId) content ∧ d.Inserted f d'

/-- `d'` is `d` with any number of such copies. -/
abbrev Copied (self : GoogleDriveStorage) : Drive → Drive → Prop :=
  Relation.ReflTransGen (CopyAdded self)

/-- The query of `latest` leaves out what restores upload. -/
theorem CopyAdded.candidates (hc : CopyAdded self d d') :
    d'.candidates self.folderId = d.candidates self.folderId := by
  obtain ⟨f, req, content, hk, hf, l₁, l₂, hd, hd'⟩ := hc
  obtain ⟨info, hb, _, hkind⟩ := hf.backup
  have hp := (Stored.backup_preRestore hb).1 (hkind.trans hk)
  rw [Drive.candidates, Drive.candidates, Drive.folder, Drive.folder, List.filter_filter,
    List.filter_filter, hd, hd', List.filter_append, List.filter_append, List.filter_cons_of_neg]
  simp [hp]

theorem Copied.candidates (hc : Copied self d d') :
    d'.candidates self.folderId = d.candidates self.folderId := by
  induction hc with
  | refl => rfl
  | tail _ hs ih => exact hs.candidates.trans ih

theorem Copied.lookup_kept {id : String} (hc : Copied self d d') (hl : d.lookup id = some x) :
    d'.lookup id = some x := by
  induction hc with
  | refl => exact hl
  | tail _ hs ih =>
    obtain ⟨f, req, content, _, hf, hi⟩ := hs
    obtain ⟨info, hb, _⟩ := hf.backup
    exact (Drive.adds_of_inserted hi hf hb).lookup_old ih

/-- Drive while restores add their copies between the requests. -/
def Amid (self : GoogleDriveStorage) (D : DrivePager) (w : DriveWorld) (e : DriveCall)
    (r : e.Reply) (w' : DriveWorld) : Prop :=
  ∃ d, Copied self w.drive d ∧ DriveStep D ⟨d, w.dst⟩ e r w'

namespace GoogleDriveStorage

/-- `latest` can return `r` when it is called with the files `d`: restores may add copies
meanwhile, and Drive answers within the retry limit. -/
def Finds (self : GoogleDriveStorage) (D : DrivePager) (d : Drive)
    (r : Except Error (Option BackupInfo)) : Prop :=
  ∃ dst evs w', Exec (Amid self D) ⟨d, dst⟩ self.latest evs (.ret r) w' ∧ WithinRetries evs

/-- What `latest` returns depends on its candidates only. -/
theorem finds_iff : self.Finds D d r ↔
    r = latestOutcome D (d.candidates self.folderId) latestMaxPages none := by
  constructor
  · rintro ⟨dst, evs, w', hx, ha⟩
    let I (w : DriveWorld) := w.drive.candidates self.folderId = d.candidates self.folderId
    have hI : ∀ w₁ e r w₂, e.reads = true → I w₁ → Amid self D w₁ e r w₂ → I w₂ := by
      rintro w₁ e r w₂ he hi ⟨d₁, hc, hs⟩
      have hd : w₂.drive = d₁ := hs.drive_eq he
      exact (congrArg (·.candidates self.folderId) hd).trans (hc.candidates.trans hi)
    have hanswers : Answers D (latestQuery self.folderId) (d.candidates self.folderId)
        (fun w e r w' => I w ∧ Amid self D w e r w') := by
      rintro w size fields token list w' ⟨hi, d₁, hc, hs⟩
      apply hs.answers
      rw [Drive.result_latestQuery, hc.candidates]
      exact congrArg some hi
    have hx' := Makes.strengthen I reading_latestFrom hI hx rfl
    rcases exec_latestFrom hanswers hx' with h | h
    · exact h
    · exact absurd ha h.2
  · rintro rfl
    have hs : D.start none = some 0 := rfl
    obtain ⟨evs, hx, ha⟩ := latestFrom_runs self ⟨d, none⟩ hs
    exact ⟨none, evs, _, hx.mono fun w e r w' hs => ⟨w.drive, .refl, hs⟩, ha⟩

/-- The calls of the `Storage` port when every `latest` is answered. -/
def answering (self : GoogleDriveStorage) (D : DrivePager) (d : Drive) :
    (c : StorageCall) → c.Reply → Drive → Prop
  | .latest, r, d' => self.Finds D d r ∧ d' = d
  | c, r, d' => self.exec D d c r d'

end GoogleDriveStorage

open GoogleDriveStorage

/-- What `latest` finds is a file. -/
theorem latestOutcome_mem {folderId : String}
    (h : latestOutcome D (d.candidates folderId) n none = .ok (some b)) :
    ∃ f ∈ d.files, f.backup = some b := by
  obtain ⟨f, hf, hb⟩ := List.mem_filterMap.1 (List.mem_of_mem_head? (latestOutcome_some h))
  exact ⟨f, (List.mem_filter.1 (List.mem_filter.1 hf).1).1, hb⟩

/-- A Drive folder as a storage that answers every `latest`, also among the copies that others
store meanwhile. -/
def answeringStorage (self : GoogleDriveStorage) (D : DrivePager) : StorageModel Drive where
  exec := self.answering D
  lookup := Drive.lookup
  names := (driveStorage self D).names
  read_only {s c r s'} hc he := by
    cases c with
    | latest => exact he.2
    | upload | delete => cases hc
    | list | get | download => exact (driveStorage self D).read_only hc he
  upload_ok he := (driveStorage self D).upload_ok he
  upload_error he := (driveStorage self D).upload_error he
  proper := (driveStorage self D).proper
  latestAmong _ := False
  delete_shrinks he hl := (driveStorage self D).delete_shrinks he hl
  delete_keeps he hp hn := (driveStorage self D).delete_keeps he hp hn
  list_names he := (driveStorage self D).list_names he
  latest_names he := latestOutcome_mem (finds_iff.1 he.1).symm
  get_names he := (driveStorage self D).get_names he
  names_lookup hn := (driveStorage self D).names_lookup hn
  lookup_proper hl := (driveStorage self D).lookup_proper hl
  download_content hn he := (driveStorage self D).download_content hn he

abbrev Ports.answering (P : Ports St DB) (self : GoogleDriveStorage) (D : DrivePager) :
    Ports Drive DB :=
  P.over (answeringStorage self D)

variable {c₀ c c' : Service Drive DB}

theorem Handle.latest_outcome {w w' : World Drive DB} {r : Except Error (Option BackupInfo)}
    (hh : Handle (P.answering self D) t w .latest r w') :
    r = latestOutcome D (w.store.candidates self.folderId) latestMaxPages none := by
  cases hh with
  | @latest _ _ s' _ hs =>
    have hs : self.Finds D w.store r ∧ s' = w.store := hs
    exact finds_iff.1 hs.1
  | latestAmong _ _ hs => cases hs

/-- A call that uploads only pre-restore backups and deletes nothing. -/
theorem Handle.copied {w w' : World Drive DB} {e : Call} {r : e.Reply}
    (hh : Handle (P.answering self D) t w e r w')
    (hu : ∀ req, e = .upload req → req.kind = .preRestore) (hd : ∀ id, e ≠ .delete id) :
    Copied self w.store w'.store := by
  by_cases hup : ∃ req, e = .upload req
  · obtain ⟨req, rfl⟩ := hup
    have hk := hu req rfl
    cases hh with
    | uploadUnread => exact .refl
    | upload content s' hf hr hs =>
      have hs : Performs D w.store (self.upload req content) r s' := hs
      obtain ⟨dst, evs, dst', hx⟩ := hs
      cases r with
      | ok info =>
        obtain ⟨f, hf, hi, _⟩ := exec_upload hx
        exact .single ⟨f, req, content, hk, hf, hi⟩
      | error e =>
        rcases exec_upload hx with hs | ⟨f, hf, hi⟩
        · rw [show s' = w.store from hs]
        · exact .single ⟨f, req, content, hk, hf, hi⟩
  · rw [hh.store_eq (fun req he => hup ⟨req, he⟩) hd]

/-- The operations other than `create_backup` upload only pre-restore backups and delete
nothing. -/
theorem runs_copies {q : Request} {k : e.Reply → Svc Outcome} (hq : q.op ≠ .createBackup)
    (hr : Runs q.body h (.call e k)) :
    (∀ req, e = .upload req → req.kind = .preRestore) ∧ ∀ id, e ≠ .delete id := by
  have hcalls := (shape_body q).pre_of_runs hr
  have hdisc := (disc_body q).pre_of_runs hr
  obtain ⟨deps, op⟩ := q
  cases op with
  | createBackup => exact absurd rfl hq
  | restore target confirm =>
    constructor
    · rintro req rfl
      exact hcalls.1
    · rintro id rfl
      exact hcalls
  | list | resolve | download | downloadBackup =>
    have hn := reader_not_holding rfl hr
    constructor
    · rintro req rfl
      rw [hdisc.1] at hn
      cases hn
    · rintro id rfl
      rw [show holding h = true from hdisc] at hn
      cases hn

/-- No operation so far is a `create_backup`. -/
def Service.NoCreate (c : Service St DB) : Prop :=
  ∀ t x, c.tasks t = some x → x.op.op ≠ .createBackup

theorem Service.NoCreate.of_step {P : Ports St DB} {c c' : Service St DB}
    (hs : Service.Step P c c') (hn : c'.NoCreate) : c.NoCreate := by
  intro t x hx
  obtain ⟨x', hx', hop⟩ := hs.task_kept hx
  rw [← hop]
  exact hn t x' hx'

theorem step_copied (hc : c₀.Initial) (hr : Service.Steps (P.answering self D) c₀ c)
    (hs : Service.Step (P.answering self D) c c') (hn : c.NoCreate) :
    Copied self c.world.store c'.world.store := by
  cases hs with
  | spawn => exact .refl
  | env he =>
    cases he with
    | edit => exact .refl
    | job t hj => rw [hj.frame.2.1]
  | move t hx hm =>
    rcases hm.world_cases with hw | ⟨e, r, k, ha, hq, hh, _⟩ | ⟨e, k, _, _, _, hw⟩ | ⟨_, hw⟩
    · rw [Pool.put, hw]
    · have hrun := task_runs hc.pool hr t _ hx
      rw [hq] at hrun
      obtain ⟨hu, hd⟩ := runs_copies (hn t _ hx) hrun
      exact Handle.copied hh hu hd
    · rw [Pool.put, hw]
      cases e <;> exact .refl
    · rw [Pool.put, hw]
      exact .refl

/-- Along a run without `create_backup` the folder gets copies only. -/
theorem steps_copied (hc : c₀.Initial) (hr : Service.Steps (P.answering self D) c₀ c)
    (hr' : Service.Steps (P.answering self D) c c') (hn : c'.NoCreate) :
    Copied self c.world.store c'.world.store := by
  induction hr' with
  | refl => exact .refl
  | tail hr' hs ih =>
    have hn' := hn.of_step hs
    exact (ih hn').trans (step_copied hc (hr.trans hr') hs hn')

/-- Each call met a folder with copies only, and was handled there. -/
theorem entry_copied (hc : c₀.Initial) (hr : Service.Steps (P.answering self D) c₀ c)
    (hn : c.NoCreate) (hx : c.tasks t = some x) : ∀ en ∈ x.hist,
    Copied self c₀.world.store en.pre.store ∧
      Handle (P.answering self D) t en.pre en.event.call en.event.reply en.post := by
  intro en hen
  refine entries_invariant (fun c t en => Service.NoCreate c →
    Copied self c₀.world.store en.pre.store ∧
      Handle (P.answering self D) t en.pre en.event.call en.event.reply en.post)
    ?_ ?_ hc.pool hr t x hx en hen hn
  · intro c₁ c₂ t en hr hs hi hn
    exact hi (Service.NoCreate.of_step hs hn)
  · intro c₁ c₂ t x e r k hr hs hx ha _ hq hh hn
    exact ⟨steps_copied hc .refl hr (Service.NoCreate.of_step hs hn), hh⟩

/-- `db` is what restoring the latest backup of `d` gives. -/
def LatestValue (P : Ports St DB) (self : GoogleDriveStorage) (D : DrivePager) (d : Drive)
    (db : DB) : Prop :=
  ∃ b content, latestOutcome D (d.candidates self.folderId) latestMaxPages none = .ok (some b) ∧
    d.lookup b.id = some (b, content) ∧ P.load content = some db

theorem LatestValue.unique {db db' : DB} (h : LatestValue P self D d db)
    (h' : LatestValue P self D d db') : db = db' := by
  obtain ⟨b, content, hb, hl, hd⟩ := h
  obtain ⟨b', content', hb', hl', hd'⟩ := h'
  rw [hb] at hb'
  cases hb'
  rw [hl] at hl'
  cases hl'
  rw [hd] at hd'
  exact Option.some.inj hd'

/-- Copies do not change it. -/
theorem LatestValue.of_copied {db : DB} (h : LatestValue P self D d' db) (hc : Copied self d d') :
    LatestValue P self D d db := by
  obtain ⟨b, content, hb, hl, hd⟩ := h
  rw [hc.candidates] at hb
  obtain ⟨f, hf, hfb⟩ := latestOutcome_mem hb
  have hl₀ : d.lookup b.id = some (b, f.content) :=
    Drive.lookup_eq_some.2 ⟨f, hf, (Stored.backup_id hfb).symm, hfb, rfl⟩
  rw [hc.lookup_kept hl₀] at hl
  cases hl
  exact ⟨b, f.content, hb, hl₀, hd⟩

section
variable {h : Hist Drive DB} (hh : ∀ en ∈ h, Copied self d en.pre.store ∧
  Handle (P.answering self D) t en.pre en.event.call en.event.reply en.post)

include hh

/-- Where only copies were added, `latest` was answered as in `d`. -/
theorem latest_entry (hm : (⟨.latest, r⟩ : Ev) ∈ h.map Entry.event) :
    latestOutcome D (d.candidates self.folderId) latestMaxPages none = r := by
  obtain ⟨⟨ev, a, b⟩, hen, he⟩ := List.mem_map.1 hm
  have he : ev = ⟨.latest, r⟩ := he
  subst he
  have hc : Copied self d a.store := (hh _ hen).1
  rw [← hc.candidates]
  exact (Handle.latest_outcome (hh _ hen).2).symm

/-- What a `Restore(latest)` has prepared for the restorer is the latest backup of `d`. -/
theorem Prepared.latestValue {db : DB}
    (hp : Prepared (P.answering self D) deps .latest restored src file time preRestore content dump
      h w) (hload : P.load content = some db) : LatestValue P self D d db := by
  have hr : latestOutcome D (d.candidates self.folderId) latestMaxPages none =
      .ok (some restored) := by
    apply latest_entry hh
    rw [hp.events]
    simp [prepared, resolved]
  obtain ⟨first, rest, rfl, _, hlook, _⟩ := hp.locked
  obtain ⟨hc, _⟩ := hh first (List.mem_cons_self ..)
  apply LatestValue.of_copied _ hc
  rw [← hc.candidates] at hr
  exact ⟨restored, content, hr, hlook, hload⟩
end

/-- What `resolve(Latest)` can return in the world `w`. -/
def Resolves (P : Ports St DB) (w : World St DB) (r : Except Error BackupInfo) : Prop :=
  ∃ t evs s, Exec (Alone P t) ([], w) (resolve .latest).run evs (.ret r) s

/-- How `resolve` passes on what `latest` returns. -/
def newest : Except Error (Option BackupInfo) → Except Error BackupInfo
  | .ok (some info) => .ok info
  | .ok none => .error (.notFound "no backups")
  | .error e => .error e

theorem resolve_latest : (resolve .latest).run = .call .latest fun r => .ret (newest r) := by
  change Prog.call Call.latest _ = _
  congr 1
  funext r
  cases r with
  | error e => rfl
  | ok found => cases found <;> rfl

theorem latestOutcome_notBusy (h : latestOutcome D l n none = r) : NotBusy r := by
  rintro e rfl
  obtain ⟨rfl, _⟩ := latestOutcome_error.1 h
  rfl

theorem resolves_iff {w : World Drive DB} : Resolves (P.answering self D) w r ↔
    r = newest (latestOutcome D (w.store.candidates self.folderId) latestMaxPages none) := by
  rw [Resolves, resolve_latest]
  constructor
  · rintro ⟨t, evs, s, hx⟩
    obtain ⟨found, s₁, evs₁, ⟨w₁, rfl, hh, _⟩, hret, _⟩ := exec_call_ret hx
    obtain ⟨_, he, _⟩ := exec_ret hret
    cases he
    rw [Handle.latest_outcome hh]
  · rintro rfl
    have hs : (P.answering self D).storage.exec w.store .latest _ w.store :=
      ⟨finds_iff.2 rfl, rfl⟩
    have hh : Handle (P.answering self D) 0 w .latest _ w :=
      .latest w.store (latestOutcome_notBusy rfl) hs
    exact ⟨0, _, _, alone_cons hh (.nil _ _)⟩

/-- `en` is a call of the restorer that succeeded, made by a `Restore(latest)`. -/
def Service.RestoredLatest (c : Service St DB) (en : Entry (World St DB) Call Call.Reply) : Prop :=
  ∃ t x deps confirm src, c.tasks t = some x ∧ x.op = ⟨deps, .restore .latest confirm⟩ ∧
    en ∈ x.hist ∧ en.event = ⟨.restore src, .ok ()⟩

theorem restoredLatest_value (hc : c₀.Initial) (hr : Service.Steps (P.answering self D) c₀ c)
    (hn : c.NoCreate) (hen : c.RestoredLatest en) :
    LatestValue P self D c₀.world.store en.post.db := by
  obtain ⟨t, x, deps, confirm, src, hx, hop, hm, he⟩ := hen
  obtain ⟨h₁, h₂, hh⟩ := List.append_of_mem hm
  obtain ⟨w₀, w, hex, _⟩ := (guard_rely hc).exec hc.pool hr t x hx
  rw [hop, hh] at hex
  obtain ⟨_, _, _, _, content, _, w₁, hp, hload⟩ := restored_entry (fun _ _ _ hu => hu)
    (shape_body ⟨deps, .restore .latest confirm⟩) hex he
  apply Prepared.latestValue (t := t) _ hp hload
  intro en' hm'
  apply entry_copied hc hr hn hx
  rw [hh]
  exact List.mem_append_left _ hm'

/-- `n` calls of `Restore(latest)` in a row that all succeed take `w` to `w'`. -/
inductive Restores (P : Ports St DB) (deps : ServiceDeps) (confirm : String) :
    Nat → World St DB → World St DB → Prop where
  | none : Restores P deps confirm 0 w w
  | next (hr : Restores P deps confirm n w w₁)
      (hx : Exec (Alone P t) ([], w₁) (restore deps .latest confirm).run evs (.ret (.ok out))
        (h, w')) : Restores P deps confirm (n + 1) w w'

theorem restore_entries (hx : Exec (Alone (P.answering self D) t) ([], w)
      (restore deps target confirm).run evs q (h, w')) :
    Copied self w.store w'.store ∧ ∀ en ∈ h, Copied self w.store en.pre.store ∧
      Handle (P.answering self D) t en.pre en.event.call en.event.reply en.post := by
  refine Safe.invariant (fun h w' => Copied self w.store w'.store ∧
    ∀ en ∈ h, Copied self w.store en.pre.store ∧
      Handle (P.answering self D) t en.pre en.event.call en.event.reply en.post)
    (restore_shape deps target confirm) ?_ ⟨.refl, by simp⟩ hx
  rintro h w₀ e r w₁ w₂ ⟨hc, hen⟩ hcalls rfl hh
  refine ⟨hc.trans (Handle.copied hh ?_ ?_), ?_⟩
  · rintro req rfl
    exact hcalls.1
  · rintro id rfl
    exact hcalls
  · intro en hm
    rcases List.mem_append.1 hm with hm | hm
    · exact hen en hm
    · rw [List.mem_singleton.1 hm]
      exact ⟨hc, hh⟩

theorem Restores.value (hr : Restores (P.answering self D) deps confirm n w w') :
    Copied self w.store w'.store ∧ (n ≠ 0 → LatestValue P self D w.store w'.db) := by
  induction hr with
  | none => exact ⟨.refl, fun hn => absurd rfl hn⟩
  | next _ hx ih =>
    obtain ⟨hc, hen⟩ := restore_entries hx
    refine ⟨ih.1.trans hc, fun _ => LatestValue.of_copied ?_ ih.1⟩
    obtain ⟨content, dump, hl, hload, _⟩ := restore_ok hx
    obtain ⟨_, _, src, file, time, hev⟩ := (restore_shape _ _ _).post_of_runs hx.runs
    refine ⟨_, content, latest_entry hen ?_, hl, hload⟩
    rw [exec_events hx, hev]
    simp [prepared, resolved]

/-- Restores never change what `latest` denotes: in a run without `create_backup`, with any number
of restores in whatever state, `resolve(Latest)` has one result, the same in every state. So every
`Restore(latest)` that overwrites the database sets it to the same value, and many of them in a row
leave it as one does. -/
theorem latest_unchanged (hc : c₀.Initial) (hr : Service.Steps (P.answering self D) c₀ c)
    (hr' : Service.Steps (P.answering self D) c c') (hn : c'.NoCreate) :
    (∃ r, (∀ r', Resolves (P.answering self D) c.world r' ↔ r' = r) ∧
      ∀ r', Resolves (P.answering self D) c'.world r' ↔ r' = r) ∧
    (∀ en en', c'.RestoredLatest en → c'.RestoredLatest en' → en.post.db = en'.post.db) ∧
    ∀ deps confirm n w w', Restores (P.answering self D) deps confirm (n + 1) c.world w →
      Restores (P.answering self D) deps confirm 1 c.world w' → w.db = w'.db := by
  have hcopied := steps_copied hc hr hr' hn
  refine ⟨⟨_, fun r' => resolves_iff, fun r' => ?_⟩, ?_, ?_⟩
  · rw [← hcopied.candidates]
    exact resolves_iff
  · intro en en' hen hen'
    have hall := hr.trans hr'
    exact (restoredLatest_value hc hall hn hen).unique (restoredLatest_value hc hall hn hen')
  · intro deps confirm n w w' hw hw'
    exact (hw.value.2 (Nat.succ_ne_zero n)).unique (hw'.value.2 Nat.one_ne_zero)

/-- The file of a copy that is uploaded next to the one of `someDrive`. -/
def copyFile : Stored where
  id := "b"
  name := backupFileName "db" .preRestore 0
  createdTime := 1
  size := none
  md5Checksum := none
  appProperties := (uploadMetadata (.pgDump "g" "db" .preRestore 0) "f").appProperties
  parents := some ["f"]
  trashed := false
  mimeType := plainMime
  content := [1]

def copyInfo : BackupInfo :=
  ⟨"b", backupFileName "db" .preRestore 0, 1, none, none, .pgCustom, .preRestore⟩

def copiedDrive : Drive :=
  ⟨copyFile :: (someDrive plainMime).files, by decide, by decide, by decide +kernel⟩

def driveWorld : World Drive Bytes :=
  ⟨[1], someDrive plainMime, none, fun _ => none, [], fun _ => none⟩

def latestRequest : Request := ⟨⟨"db", "db", none⟩, .restore .latest "db"⟩

theorem latestRequest_exec : ∃ h w k, Exec (Alone (mapPorts.answering someStorage wholePager) 0)
    ([], driveWorld) latestRequest.body
    (prepared latestRequest.deps .latest someInfo "f" "g" 0 copyInfo) (.call (.restore "f") k)
    (h, w) ∧ w.store = copiedDrive := by
  have hlatest : (answeringStorage someStorage wholePager).exec (someDrive plainMime) .latest
      (.ok (some someInfo)) (someDrive plainMime) :=
    ⟨finds_iff.2 (by decide +kernel), rfl⟩
  have hdownload : (answeringStorage someStorage wholePager).exec (someDrive plainMime)
      (.download someInfo) (.ok [1]) (someDrive plainMime) := by
    have hf : someFile "a" "a.pgdump" plainMime ∈ (someDrive plainMime).files := by
      simp [someDrive]
    have hm : someStorage.checkMd5 someInfo [1] = .ok 1 := rfl
    obtain ⟨evs, hx⟩ := download_runs (D := wholePager) someStorage ⟨someDrive plainMime, none⟩ hf
      rfl hm
    exact ⟨none, evs, hx⟩
  have hupload : (answeringStorage someStorage wholePager).exec (someDrive plainMime)
      (.upload (.pgDump "g" "db" .preRestore 0) [1]) (.ok copyInfo) copiedDrive := by
    have hf : copyFile.Completes
        (uploadMetadata (.pgDump "g" "db" .preRestore 0) someStorage.folderId) [1] :=
      ⟨rfl, rfl, rfl, rfl, rfl, rfl⟩
    have hi : (someDrive plainMime).Inserted copyFile copiedDrive := ⟨[], _, rfl, rfl⟩
    have hb : copyFile.backup = some copyInfo := by decide +kernel
    obtain ⟨evs, hx⟩ := upload_runs (D := wholePager) someStorage ⟨someDrive plainMime, none⟩ hf hi
      hb
    exact ⟨none, evs, none, hx⟩
  unfold latestRequest Request.body restore
  simp only [ne_eq, not_true_eq_false, if_false]
  exact ⟨_, _, _,
    alone_cons (.locked rfl) <|
    alone_cons (.latest _ (notBusy_ok _) hlatest) <|
    alone_cons (.tempFile rfl (by simp [driveWorld])) <|
    alone_cons (.download [1] _ hdownload) <|
    alone_cons (.tempFile rfl (by simp [driveWorld, World.write])) <|
    alone_cons (.dump _ rfl) <|
    alone_cons (.now 0) <|
    alone_cons (.upload _ _ rfl (notBusy_ok _) hupload) <|
    alone_cons .dropFile <|
    .nil _ _, rfl⟩

/-- After a restore has stored its copy, which is newer than `someInfo`, `latest` is still
`someInfo`. -/
theorem latest_unchanged_copy : ∃ c₀ c : Service Drive Bytes, c₀.Initial ∧
    Service.Steps (mapPorts.answering someStorage wholePager) c₀ c ∧ c.NoCreate ∧
    c.world.store.files = copyFile :: c₀.world.store.files ∧
    ∀ r, Resolves (mapPorts.answering someStorage wholePager) c.world r ↔ r = .ok someInfo := by
  obtain ⟨h, w, k, hx, hstore⟩ := latestRequest_exec
  obtain ⟨c₀, c, hc, hw₀, hr, hw, _, ht, ho⟩ := service_of_exec hx rfl (fun _ => rfl) rfl
    (by simp [prepared, copied, resolved])
  have hn : c.NoCreate := by
    intro t x hx
    by_cases he : t = 0
    · rw [he, ht] at hx
      cases hx
      simp [latestRequest]
    · rw [ho t he] at hx
      cases hx
  have hfirst : Resolves (mapPorts.answering someStorage wholePager) c₀.world (.ok someInfo) := by
    rw [hw₀]
    exact resolves_iff.2 (by decide +kernel)
  obtain ⟨⟨r, h₀, h₁⟩, _⟩ := latest_unchanged hc .refl hr hn
  refine ⟨c₀, c, hc, hr, hn, ?_, fun r' => ?_⟩
  · rw [hw, hw₀]
    exact congrArg Drive.files hstore
  · rw [h₁, ← (h₀ _).1 hfirst]

end FastBackup

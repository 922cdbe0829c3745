import FastBackup.Core.Ports
import FastBackup.GDrive.Attempt

namespace FastBackup
open Interaction Paging
set_option autoImplicit true

namespace Drive

def find (d : Drive) (id : String) : Option Stored := d.files.find? fun f => f.id = id

/-- What is stored under an id, if it is a backup. -/
def lookup (d : Drive) (id : String) : Option (BackupInfo × Bytes) :=
  (d.find id).bind fun f => f.backup.map fun info => (info, f.content)

variable {d d' : Drive} {f g : Stored}

theorem find_eq_some {id : String} : d.find id = some f ↔ f ∈ d.files ∧ f.id = id := by
  constructor
  · intro h
    exact ⟨List.mem_of_find?_eq_some h, by simpa using List.find?_some h⟩
  · rintro ⟨hf, rfl⟩
    obtain ⟨g, hg⟩ : ∃ g, d.find f.id = some g := by
      rw [← Option.isSome_iff_exists, find, List.find?_isSome]
      exact ⟨f, hf, by simp⟩
    have hid : g.id = f.id := by simpa using List.find?_some hg
    rw [hg, eq_of_id (List.mem_of_find?_eq_some hg) hf hid]

theorem lookup_eq_some {id : String} {x : BackupInfo × Bytes} : d.lookup id = some x ↔
    ∃ f ∈ d.files, f.id = id ∧ f.backup = some x.1 ∧ f.content = x.2 := by
  rw [lookup, Option.bind_eq_some_iff]
  constructor
  · rintro ⟨f, hf, hx⟩
    rw [Option.map_eq_some_iff] at hx
    obtain ⟨info, hb, rfl⟩ := hx
    obtain ⟨hm, hid⟩ := find_eq_some.1 hf
    exact ⟨f, hm, hid, hb, rfl⟩
  · rintro ⟨f, hm, hid, hb, hc⟩
    refine ⟨f, find_eq_some.2 ⟨hm, hid⟩, ?_⟩
    rw [hb, hc]
    rfl

theorem Inserted.mem_iff (hi : d.Inserted f d') : g ∈ d'.files ↔ g = f ∨ g ∈ d.files := by
  obtain ⟨l₁, l₂, hd, hd'⟩ := hi
  rw [hd, hd']
  simp only [List.mem_append, List.mem_cons]
  tauto

theorem Inserted.fresh (hi : d.Inserted f d') (hg : g ∈ d.files) : g.id ≠ f.id := by
  have hn := d'.nodup
  obtain ⟨l₁, l₂, hd, hd'⟩ := hi
  rw [hd', List.map_append, List.map_cons, List.nodup_middle, ← List.map_append, ← hd] at hn
  intro he
  exact (List.nodup_cons.1 hn).1 (he ▸ List.mem_map_of_mem hg)

theorem mem_remove {id : String} : f ∈ (d.remove id).files ↔ f ∈ d.files ∧ f.id ≠ id := by
  simp [remove]

theorem lookup_remove (d : Drive) (id : String) :
    (d.remove id).lookup = Function.update d.lookup id none := by
  funext id'
  by_cases hid : id' = id
  · subst hid
    rw [Function.update_self, Option.eq_none_iff_forall_ne_some]
    intro x hx
    obtain ⟨f, hf, hid, _⟩ := lookup_eq_some.1 hx
    exact (mem_remove.1 hf).2 hid
  · rw [Function.update_of_ne hid]
    ext x
    simp only [lookup_eq_some, mem_remove]
    constructor
    · rintro ⟨f, ⟨hf, _⟩, hx⟩
      exact ⟨f, hf, hx⟩
    · rintro ⟨f, hf, rfl, hx⟩
      exact ⟨f, ⟨hf, hid⟩, rfl, hx⟩

/-- A new file of an upload is a new backup. -/
theorem adds_of_inserted (hi : d.Inserted f d')
    (hf : f.Completes (uploadMetadata req folderId) content) (hb : f.backup = some info) :
    Adds lookup req content info d d' := by
  obtain ⟨info', hb', hfmt, hk⟩ := hf.backup
  rw [hb, Option.some.injEq] at hb'
  subst hb'
  have hid := Stored.backup_id hb
  refine ⟨?_, ?_, hk, hfmt⟩
  · rw [Option.eq_none_iff_forall_ne_some]
    intro x hx
    obtain ⟨g, hg, hgid, _⟩ := lookup_eq_some.1 hx
    exact hi.fresh hg (hgid.trans hid)
  · funext id
    by_cases he : id = info.id
    · subst he
      rw [Function.update_self]
      exact lookup_eq_some.2 ⟨f, hi.mem_iff.2 (.inl rfl), hid.symm, hb, hf.content⟩
    · rw [Function.update_of_ne he]
      ext x
      simp only [lookup_eq_some, hi.mem_iff]
      constructor
      · rintro ⟨g, rfl | hg, hgid, hx⟩
        · exact absurd (hgid.symm.trans hid.symm) he
        · exact ⟨g, hg, hgid, hx⟩
      · rintro ⟨g, hg, hx⟩
        exact ⟨g, .inr hg, hx⟩

end Drive

/-- `p` can return `r` and take the files of Drive from `d` to `d'`. -/
def Performs (D : DrivePager) (d : Drive) (p : Drv α) (r : α) (d' : Drive) : Prop :=
  ∃ dst evs dst', Exec (DriveStep D) ⟨d, dst⟩ p evs (.ret r) ⟨d', dst'⟩

/-- The calls of the `Storage` port. -/
def GoogleDriveStorage.exec (self : GoogleDriveStorage) (D : DrivePager) (d : Drive) :
    (c : StorageCall) → c.Reply → Drive → Prop
  | .upload req content, r, d' => Performs D d (self.upload req content) r d'
  | .list size token, r, d' => Performs D d (self.list size token) r d'
  | .latest, r, d' => Performs D d self.latest r d'
  | .get id, r, d' => Performs D d (self.get id) r d'
  | .download backup, .ok content, d' => ∃ dst evs,
      Exec (DriveStep D) ⟨d, dst⟩ (self.download backup) evs (.ret (.ok ())) ⟨d', some content⟩
  | .download backup, .error e, d' => Performs D d (self.download backup) (.error e) d'
  | .delete id, r, d' => Performs D d (self.delete id) r d'

theorem Reading.performs {p : Drv α} (hp : Reading p) (hx : Performs D d p r d') :
    d' = d ∧ ∃ w w' evs, Exec (Steady D d) w p evs (.ret r) w' := by
  obtain ⟨dst, evs, dst', hx⟩ := hx
  obtain ⟨hd, hx⟩ := Reading.steady hp hx
  exact ⟨hd, _, _, _, hx⟩

namespace GoogleDriveStorage
variable {self : GoogleDriveStorage} {D : DrivePager} {d d' : Drive}

theorem exec_read_only {c : StorageCall} {r : c.Reply} (hc : c.reads = true)
    (he : self.exec D d c r d') : d' = d := by
  cases c with
  | upload | delete => cases hc
  | list => exact (Reading.performs reading_list he).1
  | latest => exact (Reading.performs reading_latestFrom he).1
  | get => exact (Reading.performs reading_get he).1
  | download =>
    cases r with
    | ok content =>
      obtain ⟨dst, evs, hx⟩ := he
      exact (Reading.performs reading_download ⟨dst, evs, _, hx⟩).1
    | error e => exact (Reading.performs reading_download he).1

theorem list_performs (hx : Performs D d (self.list size token) (.ok p) d') :
    ∃ next i, D.start token = some i ∧
      D.Next (d.folder self.folderId) (min size (2 ^ 31 - 1)) token next ∧
      p = ⟨(D.entries (d.folder self.folderId) (min size (2 ^ 31 - 1)) token).filterMap
        Stored.backup, next⟩ := by
  obtain ⟨_, w, w', evs, hx⟩ := Reading.performs reading_list hx
  exact exec_list (steady_answers (d.result_folderQuery self.folderId)) hx

theorem latest_performs (hx : Performs D d self.latest (.ok newest) d') :
    latestOutcome D (d.candidates self.folderId) latestMaxPages none = .ok newest := by
  obtain ⟨_, w, w', evs, hx⟩ := Reading.performs reading_latestFrom hx
  have hanswers := steady_answers (D := D) (d.result_latestQuery self.folderId)
  rcases exec_latestFrom hanswers hx with h | ⟨⟨e, he⟩, _⟩
  · exact h.symm
  · cases he

theorem delete_performs {id : String} (hx : Performs D d (self.delete id) r d') :
    (d' = d ∨ d' = d.erase id) ∧ (r = .ok () → d' = d.erase id) := by
  obtain ⟨dst, evs, dst', hx⟩ := hx
  exact exec_delete hx

/-- What `latest` finds is the first backup of the files that meet its query. -/
theorem latestOutcome_some (h : latestOutcome D l n none = .ok (some b)) :
    (l.filterMap Stored.backup).head? = some b := by
  rw [latestOutcome] at h
  split at h
  · rename_i newest hnewest
    cases h
    have hs : D.start none = some 0 := rfl
    obtain ⟨rest, hrest⟩ := D.pages_prefix l latestPageSize n hs
    rw [List.drop_zero] at hrest
    rw [← hrest, List.filterMap_append, List.head?_append, hnewest]
    rfl
  · split at h <;> cases h

theorem latestOutcome_none (h : latestOutcome D l n none = .ok none) :
    l.filterMap Stored.backup = [] := by
  rw [latestOutcome] at h
  split at h
  · cases h
  · rename_i hnone
    split at h
    · cases h
    · rename_i hgo
      have hs : D.start none = some 0 := rfl
      have hall := D.pages_all hs (Bool.eq_false_iff.2 hgo)
      rw [hall, List.drop_zero] at hnone
      exact List.head?_eq_none_iff.1 hnone

end GoogleDriveStorage

/-- Drive with any files at each request. -/
def Anywhere (D : DrivePager) (w : DriveWorld) (e : DriveCall) (r : e.Reply) (w' : DriveWorld) :
    Prop :=
  ∃ d, DriveStep D ⟨d, w.dst⟩ e r w'

/-- A Drive folder as a storage. -/
def driveStorage (self : GoogleDriveStorage) (D : DrivePager) : StorageModel Drive where
  exec := self.exec D
  lookup := Drive.lookup
  names d i := ∃ f ∈ d.files, f.backup = some i
  read_only hc he := GoogleDriveStorage.exec_read_only hc he
  upload_ok he := by
    obtain ⟨dst, evs, dst', hx⟩ := he
    obtain ⟨f, hf, hi, hb⟩ := GoogleDriveStorage.exec_upload hx
    exact Drive.adds_of_inserted hi hf hb
  upload_error he := by
    obtain ⟨dst, evs, dst', hx⟩ := he
    rcases GoogleDriveStorage.exec_upload hx with hd | ⟨f, hf, hi⟩
    · exact .inl hd
    · obtain ⟨info, hb, _⟩ := hf.backup
      exact .inr ⟨info, Drive.adds_of_inserted hi hf hb⟩
  proper id := Addresses id id
  latestAmong r := ∃ w evs w', Exec (Anywhere D) w self.latest evs (.ret r) w'
  delete_shrinks he hl := by
    obtain ⟨f, hf, hrest⟩ := Drive.lookup_eq_some.1 hl
    rcases (GoogleDriveStorage.delete_performs he).1 with rfl | rfl
    · exact hl
    · exact Drive.lookup_eq_some.2 ⟨f, (Drive.mem_erase.1 hf).1, hrest⟩
  delete_keeps he hp hn := by
    rcases (GoogleDriveStorage.delete_performs he).1 with rfl | rfl
    · rfl
    · rw [Drive.erase_eq_remove hp, Drive.lookup_remove, Function.update_of_ne hn]
  list_names he := by
    obtain ⟨next, i, _, _, rfl⟩ := GoogleDriveStorage.list_performs he
    intro b hb
    obtain ⟨f, hf, hb⟩ := List.mem_filterMap.1 hb
    exact ⟨f, (List.mem_filter.1 (Pager.mem_of_entries hf)).1, hb⟩
  latest_names he := by
    have h := GoogleDriveStorage.latestOutcome_some (GoogleDriveStorage.latest_performs he)
    obtain ⟨f, hf, hb⟩ := List.mem_filterMap.1 (List.mem_of_mem_head? h)
    exact ⟨f, (List.mem_filter.1 (List.mem_filter.1 hf).1).1, hb⟩
  get_names he := by
    obtain ⟨_, w, w', evs, hx⟩ := Reading.performs GoogleDriveStorage.reading_get he
    obtain ⟨f, hf, ha, _, hb⟩ := GoogleDriveStorage.get_ok hx
    exact ⟨⟨f, hf, hb⟩, fun hp => (Stored.backup_id hb).trans (ha.unique hp)⟩
  names_lookup hn := by
    obtain ⟨f, hf, hb⟩ := hn
    exact ⟨f.content, Drive.lookup_eq_some.2 ⟨f, hf, (Stored.backup_id hb).symm, hb, rfl⟩⟩
  lookup_proper hl := by
    obtain ⟨f, hf, hid, _⟩ := Drive.lookup_eq_some.1 hl
    exact hid ▸ Drive.addressed _ f hf
  download_content hn he := by
    obtain ⟨f, hf, hb⟩ := hn
    obtain ⟨dst, evs, hx⟩ := he
    obtain ⟨g, hg, ha, hc⟩ :=
      GoogleDriveStorage.exec_download (Reading.steady GoogleDriveStorage.reading_download hx).2
    rw [Stored.backup_id hb] at ha
    have hgf := Drive.eq_of_id hg hf (ha.unique (Drive.addressed _ f hf))
    subst hgf
    exact Drive.lookup_eq_some.2 ⟨g, hf, (Stored.backup_id hb).symm, hb, (Option.some.inj hc).symm⟩

/-- The ports with a Drive folder as their storage. -/
abbrev Ports.onDrive (P : Ports St DB) (self : GoogleDriveStorage) (D : DrivePager) :
    Ports Drive DB :=
  P.over (driveStorage self D)

end FastBackup

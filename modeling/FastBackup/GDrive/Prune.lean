import FastBackup.GDrive.Latest
import FastBackup.Server.Create

namespace FastBackup
open Interaction Paging Ranking
set_option autoImplicit true

variable {St DB : Type} {P : Ports St DB} {self : GoogleDriveStorage} {D : DrivePager}

/-- The backups of a folder that retention counts, newest first. -/
def Drive.regular (d : Drive) (folderId : String) : List BackupInfo :=
  ((d.folder folderId).filterMap Stored.backup).filter prunable

theorem Drive.backups_sorted (d : Drive) (folderId : String) :
    ((d.folder folderId).filterMap Stored.backup).Pairwise newestFirst := by
  rw [List.pairwise_filterMap]
  apply (d.sorted.sublist List.filter_sublist).imp
  intro f g hfg b hb b' hb'
  rw [newestFirst, Stored.backup_createdAt hb, Stored.backup_createdAt hb']
  exact hfg

/-- The listing of a folder comes in the order of the ranking. -/
theorem Drive.ranked_backups (d : Drive) (folderId : String) :
    ranked ((d.folder folderId).filterMap Stored.backup) = d.regular folderId := by
  apply List.Pairwise.insertionSort_eq
  exact (d.backups_sorted folderId).sublist List.filter_sublist

/-- What changes nothing in the storage. -/
theorem store_of_exec {P : Ports St DB} {p q : Svc α} (hx : Exec (Alone P t) s p evs q s')
    (hn : ∀ ev ∈ evs, (∀ req, ev.call ≠ .upload req) ∧ ∀ id, ev.call ≠ .delete id) :
    s'.2.store = s.2.store := by
  induction hx with
  | nil => rfl
  | cons hs _ ih =>
    obtain ⟨w, rfl, hh, _⟩ := hs
    rw [ih fun ev hm => hn ev (List.mem_cons_of_mem _ hm)]
    obtain ⟨hu, hd⟩ := hn _ (List.mem_cons_self ..)
    exact Handle.store_eq hh hu hd

/-- The folder right after the upload of a `create_backup`. -/
def Uploaded (self : GoogleDriveStorage) (info : BackupInfo) (d d' : Drive) : Prop :=
  ∃ f req content, f.Completes (uploadMetadata req self.folderId) content ∧ d.Inserted f d' ∧
    f.backup = some info

theorem uploaded_of_created {p q : Svc α} (hx : Exec (Alone (P.onDrive self D) t) s p
    (created deps file time info) q s') : Uploaded self info s.2.store s'.2.store := by
  have hcut : created deps file time info = [⟨.tryLock, true⟩, ⟨.tempFile ".pgdump", .ok file⟩,
      ⟨.dump file, .ok ()⟩, ⟨.now, time⟩] ++
      ⟨.upload (.pgDump file deps.dumperDbName .regular time), .ok info⟩ ::
      [⟨.dropFile file, ()⟩] := rfl
  rw [hcut] at hx
  obtain ⟨p₁, ⟨h₁, w₀⟩, hx₁, hx₂⟩ := hx.split
  obtain ⟨w₁, w₂, p₂, rfl, hh, hx₃⟩ := exec_uncons hx₂
  have hs₁ : w₁.store = s.2.store := store_of_exec hx₁ (by simp)
  have hs₂ : s'.2.store = w₂.store := store_of_exec hx₃ (by simp)
  rw [hs₂, ← hs₁]
  cases hh with
  | upload content _ _ _ hs =>
    obtain ⟨dst, evs, dst', hx⟩ := hs
    obtain ⟨f, hf, hi, hb⟩ := GoogleDriveStorage.exec_upload hx
    exact ⟨f, _, content, hf, hi, hb⟩

theorem store_of_listed {P : Ports St DB} {p q : Svc α} (hl : Listed n token all evs r)
    (hx : Exec (Alone P t) s p evs q s') : s'.2.store = s.2.store := by
  apply store_of_exec hx
  intro ev hm
  obtain ⟨_, _, hc⟩ := hl.calls ev hm
  rw [hc]
  simp

/-- The pages that retention reads are those of the folder. -/
theorem pages_of_exec {p q : Svc α} (hx : Exec (Alone (P.onDrive self D) t) s p
      (pageCalls token pages) q s') (hs : D.start token = some i) :
    (Complete pages → pages.flatMap Page.items =
        ((s.2.store.folder self.folderId).drop i).filterMap Stored.backup ∧
      D.goesOn (s.2.store.folder self.folderId) maxPageSize pages.length token = false) ∧
    ((∀ page ∈ pages, page.more = true) →
      D.goesOn (s.2.store.folder self.folderId) maxPageSize pages.length token = true) := by
  induction pages generalizing token i s p with
  | nil => exact ⟨fun h => h.elim, fun _ => rfl⟩
  | cons page pages ih =>
    obtain ⟨h, w₀⟩ := s
    obtain ⟨w, w', p', rfl, hh, hx'⟩ := exec_uncons hx
    have hw' : w'.store = w.store := Handle.store_eq hh (by simp) (by simp)
    have hlist : ∃ next, D.Next (w.store.folder self.folderId) maxPageSize token next ∧
        page = ⟨(D.entries (w.store.folder self.folderId) maxPageSize token).filterMap
          Stored.backup, next⟩ := by
      cases hh with
      | list _ _ hx =>
        obtain ⟨next, _, _, hn, hp⟩ := GoogleDriveStorage.list_performs hx
        exact ⟨next, hn, hp⟩
    obtain ⟨next, hn, rfl⟩ := hlist
    rw [Complete, List.length_cons, Pager.goesOn]
    by_cases hm : (Page.mk ((D.entries (w.store.folder self.folderId) maxPageSize token).filterMap
        Stored.backup) next).more = true
    · obtain ⟨t', rfl, hnext⟩ := hn.more hm
      obtain ⟨hall, hmore⟩ := ih hx' (D.start_next hs hnext)
      simp only [hw'] at hall hmore
      simp only [hm, if_true, hnext, List.flatMap_cons]
      refine ⟨?_, fun h => hmore fun page hp => h page (List.mem_cons_of_mem _ hp)⟩
      intro hc
      obtain ⟨hitems, hgo⟩ := hall hc
      refine ⟨?_, hgo⟩
      rw [hitems, ← List.filterMap_append, D.entries_append _ hs]
    · have hnext := hn.last (Bool.eq_false_iff.2 hm)
      simp only [hm, hnext]
      refine ⟨?_, fun h => absurd (h _ (List.mem_cons_self ..)) hm⟩
      rintro rfl
      refine ⟨?_, trivial⟩
      rw [List.flatMap_singleton, D.entries_last hs hnext]

/-- What the deletes of retention do to the folder. -/
theorem deletes_of_exec {p q : Svc α} (hx : Exec (Alone (P.onDrive self D) t) s p
      (deleteCalls bs rs) q s') (hlen : rs.length = bs.length)
    (hids : ∀ b ∈ bs, Addresses b.id b.id) :
    s'.2.store.files.Sublist s.2.store.files ∧
    (∀ f ∈ s.2.store.files, f ∉ s'.2.store.files → f.id ∈ bs.map BackupInfo.id) ∧
    ((∀ r ∈ rs, r = .ok ()) →
      s'.2.store.files = s.2.store.files.filter fun f => f.id ∉ bs.map BackupInfo.id) := by
  induction bs generalizing rs s p with
  | nil =>
    obtain ⟨rfl, rfl⟩ := exec_nil hx
    exact ⟨.refl _, fun f hf hn => absurd hf hn, fun _ => by simp⟩
  | cons b bs ih =>
    cases rs with
    | nil => cases hlen
    | cons r rs =>
      obtain ⟨h, w₀⟩ := s
      obtain ⟨w, w', p', rfl, hh, hx'⟩ := exec_uncons hx
      obtain ⟨hsub, hdel, hexact⟩ :=
        ih hx' (Nat.succ.inj hlen) fun b hb => hids b (List.mem_cons_of_mem _ hb)
      have hdelete : (w'.store = w.store ∨ w'.store = w.store.remove b.id) ∧
          (r = .ok () → w'.store = w.store.remove b.id) := by
        rw [← Drive.erase_eq_remove (hids b (List.mem_cons_self ..))]
        cases hh with
        | delete _ _ hs => exact GoogleDriveStorage.delete_performs hs
      have hsub' : w'.store.files.Sublist w.store.files := by
        rcases hdelete.1 with hd | hd
        · rw [hd]
        · rw [hd]
          exact List.filter_sublist
      refine ⟨hsub.trans hsub', ?_, ?_⟩
      · intro f hf hn
        by_cases hf' : f ∈ w'.store.files
        · exact List.mem_cons_of_mem _ (hdel f hf' hn)
        · rcases hdelete.1 with hd | hd
          · rw [hd] at hf'
            exact absurd hf hf'
          · rw [hd, Drive.mem_remove, not_and_not_right] at hf'
            exact hf' hf ▸ List.mem_cons_self ..
      · intro hok
        rw [hexact fun r hr => hok r (List.mem_cons_of_mem _ hr),
          hdelete.2 (hok r (List.mem_cons_self ..)), Drive.remove, List.filter_filter]
        apply List.filter_congr
        intro f _
        by_cases hb : f.id = b.id
        · simp [hb]
        · simp [List.map_cons, List.mem_cons, hb]

theorem Drive.backups_ids (l : List Stored) :
    ((l.filterMap Stored.backup).map BackupInfo.id).Sublist (l.map Stored.id) := by
  induction l with
  | nil => exact .refl _
  | cons f l ih =>
    rw [List.filterMap_cons, List.map_cons]
    cases hb : f.backup with
    | none => exact ih.cons _
    | some info =>
      simp only [List.map_cons]
      rw [Stored.backup_id hb]
      exact ih.cons_cons _

theorem Drive.backups_nodup (d : Drive) (folderId : String) :
    (((d.folder folderId).filterMap Stored.backup).map BackupInfo.id).Nodup := by
  have hfolder : ((d.folder folderId).map Stored.id).Nodup :=
    d.nodup.sublist (List.filter_sublist.map _)
  exact hfolder.sublist (Drive.backups_ids _)

theorem Drive.regular_nodup (d : Drive) (folderId : String) :
    ((d.regular folderId).map BackupInfo.id).Nodup :=
  (d.backups_nodup folderId).sublist (List.filter_sublist.map _)

theorem Drive.mem_regular {d : Drive} {folderId : String} : b ∈ d.regular folderId ↔
    ∃ f ∈ d.folder folderId, f.backup = some b ∧ prunable b = true := by
  rw [Drive.regular, List.mem_filter, List.mem_filterMap]
  constructor
  · rintro ⟨⟨f, hf, hb⟩, hp⟩
    exact ⟨f, hf, hb, hp⟩
  · rintro ⟨f, hf, hb, hp⟩
    exact ⟨⟨f, hf, hb⟩, hp⟩

theorem Drive.regular_addressed {d : Drive} {folderId : String} (hb : b ∈ d.regular folderId) :
    Addresses b.id b.id := by
  obtain ⟨f, hf, hfb, _⟩ := Drive.mem_regular.1 hb
  rw [Stored.backup_id hfb]
  exact d.addressed f (List.mem_filter.1 hf).1

/-- Files removed by id are missing from the backups by id. -/
theorem Drive.regular_filter {d d' : Drive} {folderId : String} {ids : List String}
    (hd : d'.files = d.files.filter fun f => f.id ∉ ids) :
    d'.regular folderId = (d.regular folderId).filter fun b => b.id ∉ ids := by
  have hfolder : d'.folder folderId = (d.folder folderId).filter fun f => f.id ∉ ids := by
    rw [Drive.folder, hd, List.filter_comm]
    rfl
  have hbackups : ((d.folder folderId).filter fun f => f.id ∉ ids).filterMap Stored.backup =
      ((d.folder folderId).filterMap Stored.backup).filter fun b => b.id ∉ ids := by
    rw [List.filterMap_filter, List.filter_filterMap]
    apply List.filterMap_congr
    intro f _
    cases hb : f.backup with
    | none => simp
    | some info => simp [Option.filter, Stored.backup_id hb]
  rw [Drive.regular, hfolder, hbackups, List.filter_comm]
  rfl

/-- What retention with the calls `evs` makes of the folder. -/
structure Retained (S : GoogleDriveStorage) (D : DrivePager) (keep : Nat) (evs : List Ev)
    (d d' : Drive) : Prop where
  sublist : d'.files.Sublist d.files
  /-- Only regular backups of the folder beyond the newest `keep` are deleted. -/
  deleted : ∀ f ∈ d.files, f ∉ d'.files → f ∈ d.folder S.folderId ∧
    ∃ b ∈ (d.regular S.folderId).drop keep, f.backup = some b
  /-- If every call succeeds and there are at most 100 pages, they all are. -/
  exact : (∀ size token e, ⟨.list size token, .error e⟩ ∉ evs) →
    D.goesOn (d.folder S.folderId) maxPageSize 100 none = false →
    (∀ id e, ⟨.delete id, .error e⟩ ∉ evs) →
    (d'.files = d.files.filter fun f =>
      f.id ∉ ((d.regular S.folderId).drop keep).map BackupInfo.id) ∧
    d'.regular S.folderId = (d.regular S.folderId).take keep ∧
    (d'.regular S.folderId).length = min keep (d.regular S.folderId).length
  /-- If a page fails or there is a 101st page, nothing is deleted. -/
  unchanged : (∃ size token e, ⟨.list size token, .error e⟩ ∈ evs) ∨
    D.goesOn (d.folder S.folderId) maxPageSize 100 none = true → d' = d

theorem retained_of_listing_failed {p q : Svc α}
    (hl : Listed maxRetentionPages none [] evs (.error e))
    (hx : Exec (Alone (P.onDrive self D) t) s p evs q s') :
    Retained self D keep evs s.2.store s'.2.store := by
  rw [store_of_listed hl hx]
  refine ⟨.refl _, fun f hf hn => absurd hf hn, ?_, fun _ => rfl⟩
  intro hlist hgo _
  obtain ⟨pages, hmore, ⟨hn, _, rfl⟩ | ⟨_, rfl⟩⟩ := hl
  · have hs : D.start none = some 0 := rfl
    have htrue := (pages_of_exec hx hs).2 hmore
    rw [hn, show maxRetentionPages = 100 from rfl, hgo] at htrue
    cases htrue
  · exact absurd (List.mem_append_right _ (List.mem_singleton_self _)) (hlist _ _ _)

theorem created_prunes : ∀ ev ∈ created deps file time info, ev.call.prunes = false := by
  simp [created, copied, Call.prunes]

theorem created_upload (hm : ⟨.upload req, .ok info⟩ ∈ created deps file time info') :
    info' = info := by
  simp only [created, copied, List.cons_append, List.nil_append, List.mem_cons, List.not_mem_nil,
    or_false, Event.mk.injEq, Call.upload.injEq, reduceCtorEq, false_and, false_or] at hm
  obtain ⟨rfl, hm⟩ := hm
  exact (Except.ok.inj (eq_of_heq hm)).symm

theorem reply_mem_deleteCalls (hlen : rs.length = bs.length) (hr : r ∈ rs) :
    ∃ b : BackupInfo, ⟨.delete b.id, r⟩ ∈ deleteCalls bs rs := by
  induction bs generalizing rs with
  | nil =>
    rw [List.eq_nil_of_length_eq_zero hlen] at hr
    cases hr
  | cons b bs ih =>
    cases rs with
    | nil => cases hr
    | cons r' rs =>
      rcases List.mem_cons.1 hr with rfl | hr
      · exact ⟨b, List.mem_cons_self ..⟩
      · obtain ⟨b', hb'⟩ := ih (Nat.succ.inj hlen) hr
        exact ⟨b', List.mem_cons_of_mem _ hb'⟩

theorem retained_of_pruned {p q : Svc α} (hp : Pruned (some keep) evs)
    (hx : Exec (Alone (P.onDrive self D) t) s p evs q s') :
    Retained self D keep evs s.2.store s'.2.store := by
  obtain ⟨r, listing, hl, hp⟩ := hp
  cases r with
  | error e =>
    rw [show evs = listing from hp] at hx ⊢
    exact retained_of_listing_failed hl hx
  | ok all =>
    obtain ⟨rs, hlen, rfl⟩ := hp
    obtain ⟨p₁, s₁, hx₁, hx₂⟩ := hx.split
    have hstore := store_of_listed hl hx₁
    obtain ⟨pages, hc, hn, rfl, rfl⟩ := hl
    have hs : D.start none = some 0 := rfl
    obtain ⟨hall, hgo⟩ := (pages_of_exec hx₁ hs).1 hc
    have hcand : retentionCandidates ([] ++ pages.flatMap Page.items) keep =
        (s.2.store.regular self.folderId).drop keep := by
      rw [retentionCandidates, List.nil_append, hall, List.drop_zero, Drive.ranked_backups]
    rw [hcand] at hx₂ hlen ⊢
    have hids : ∀ b ∈ (s.2.store.regular self.folderId).drop keep, Addresses b.id b.id :=
      fun b hb => Drive.regular_addressed (List.mem_of_mem_drop hb)
    obtain ⟨hsub, hdel, hexact⟩ := deletes_of_exec hx₂ hlen hids
    rw [hstore] at hsub hdel hexact
    refine ⟨hsub, ?_, ?_, ?_⟩
    · intro f hf hgone
      obtain ⟨b, hb, hid⟩ := List.mem_map.1 (hdel f hf hgone)
      obtain ⟨g, hg, hgb, _⟩ := Drive.mem_regular.1 (List.mem_of_mem_drop hb)
      have hgf : g = f :=
        Drive.eq_of_id (List.mem_filter.1 hg).1 hf ((Stored.backup_id hgb).symm.trans hid)
      subst hgf
      exact ⟨hg, b, hb, hgb⟩
    · intro _ _ hdelete
      have hok : ∀ r ∈ rs, r = .ok () := by
        intro r hr
        obtain ⟨b, hm⟩ := reply_mem_deleteCalls hlen hr
        cases r with
        | ok u => rfl
        | error e => exact absurd (List.mem_append_right _ hm) (hdelete b.id e)
      have hfiles := hexact hok
      have hregular : s'.2.store.regular self.folderId =
          (s.2.store.regular self.folderId).take keep := by
        rw [Drive.regular_filter hfiles]
        exact filter_not_mem_drop (s.2.store.regular_nodup self.folderId) keep
      exact ⟨hfiles, hregular, by rw [hregular, List.length_take]⟩
    · rintro (⟨size, token, e, hm⟩ | htrue)
      · rcases List.mem_append.1 hm with hm | hm
        · obtain ⟨_, _, _, he⟩ := mem_pageCalls hm
          cases he
        · obtain ⟨_, _, _, he⟩ := mem_deleteCalls hm
          cases he
      · have hfalse := D.goesOn_false_of_le hgo hn
        rw [show maxRetentionPages = 100 from rfl, htrue] at hfalse
        cases hfalse

/-- After its upload a `create_backup` returns `Ok` whatever happens in retention, which removes
exactly what it should from the Drive folder. -/
theorem create_prunes (hk : deps.retention = some keep)
    (hx : Exec (Alone (P.onDrive self D) t) ([], w) (createBackup deps).run evs (.ret r) (h, w'))
    (hup : ⟨.upload req, .ok info⟩ ∈ evs) :
    r = .ok info ∧ ∃ d, Uploaded self info w.store d ∧ Retained self D keep evs d w'.store := by
  have hends := (createBackup_shape deps).post_of_runs hx.runs
  cases r with
  | error e => exact absurd rfl (hends.2 _ hup req info)
  | ok info' =>
    obtain ⟨file, time, evs', hp, rfl⟩ := hends
    rw [hk] at hp
    have hprunes := hp.prunes
    obtain ⟨p₂, s₂, hx₂, hx₃⟩ := hx.split
    obtain ⟨p₁, s₁, hx₁, hx₂⟩ := hx₂.split
    have hw' : w'.store = s₂.2.store := store_of_exec hx₃ (by simp)
    have hret := retained_of_pruned hp hx₂
    -- retention made all the list and delete calls, and none of the others
    have hevs : ∀ ev : Ev, ev.call.prunes = true →
        (ev ∈ created deps file time info' ++ evs' ++ [⟨.unlock, ()⟩] ↔ ev ∈ evs') := by
      intro ev hev
      constructor
      · intro hm
        rcases List.mem_append.1 hm with hm | hm
        · rcases List.mem_append.1 hm with hm | hm
          · rw [created_prunes ev hm] at hev
            cases hev
          · exact hm
        · rw [List.mem_singleton.1 hm] at hev
          cases hev
      · exact fun hm => List.mem_append_left _ (List.mem_append_right _ hm)
    have hinfo : info' = info := by
      rcases List.mem_append.1 hup with hm | hm
      · rcases List.mem_append.1 hm with hm | hm
        · exact created_upload hm
        · cases hprunes _ hm
      · simp at hm
    subst hinfo
    rw [← hw'] at hret
    refine ⟨rfl, s₁.2.store, uploaded_of_created hx₁, hret.sublist, hret.deleted, ?_, ?_⟩
    · intro hlist hgo hdelete
      apply hret.exact _ hgo
      · intro id e hm
        exact hdelete id e ((hevs _ rfl).2 hm)
      · intro size token e hm
        exact hlist size token e ((hevs _ rfl).2 hm)
    · rintro (⟨size, token, e, hm⟩ | hgo)
      · exact hret.unchanged (.inl ⟨size, token, e, (hevs _ rfl).1 hm⟩)
      · exact hret.unchanged (.inr hgo)

/-- The file of a backup that is uploaded next to the one of `someDrive`. -/
def newFile : Stored where
  id := "b"
  name := backupFileName "db" .regular 0
  createdTime := 1
  size := none
  md5Checksum := none
  appProperties := (uploadMetadata (.pgDump "f" "db" .regular 0) "f").appProperties
  parents := some ["f"]
  trashed := false
  mimeType := plainMime
  content := [1]

def newInfo : BackupInfo :=
  ⟨"b", backupFileName "db" .regular 0, 1, none, none, .pgCustom, .regular⟩

def twoFiles : Drive :=
  ⟨newFile :: (someDrive plainMime).files, by decide, by decide, by decide +kernel⟩

/-- With `keep = 1` a new backup takes the place of the old one. -/
theorem create_prunes_two : ∃ evs h w' d, Exec (Alone (mapPorts.onDrive someStorage wholePager) 0)
      ([], driveWorld) (createBackup keepOne).run evs (.ret (.ok newInfo)) (h, w') ∧
    Uploaded someStorage newInfo driveWorld.store d ∧
    Retained someStorage wholePager 1 evs d w'.store := by
  have hupload : (driveStorage someStorage wholePager).exec (someDrive plainMime)
      (.upload (.pgDump "f" "db" .regular 0) [1]) (.ok newInfo) twoFiles := by
    have hf : newFile.Completes
        (uploadMetadata (.pgDump "f" "db" .regular 0) someStorage.folderId) [1] :=
      ⟨rfl, rfl, rfl, rfl, rfl, rfl⟩
    have hi : (someDrive plainMime).Inserted newFile twoFiles := ⟨[], _, rfl, rfl⟩
    have hb : newFile.backup = some newInfo := by decide +kernel
    obtain ⟨evs, hx⟩ := GoogleDriveStorage.upload_runs (D := wholePager) someStorage
      ⟨someDrive plainMime, none⟩ hf hi hb
    exact ⟨none, evs, none, hx⟩
  have hlist : (driveStorage someStorage wholePager).exec twoFiles (.list maxPageSize none)
      (.ok ⟨[newInfo, someInfo], none⟩) twoFiles := by
    have hs : wholePager.start none = some 0 := rfl
    obtain ⟨evs, hx⟩ := GoogleDriveStorage.list_runs someStorage ⟨twoFiles, none⟩ maxPageSize hs
    have hp : (wholePager.entries (twoFiles.folder "f") (min maxPageSize (2 ^ 31 - 1))
        none).filterMap Stored.backup = [newInfo, someInfo] := by
      decide +kernel
    rw [show someStorage.folderId = "f" from rfl, hp] at hx
    exact ⟨none, evs, none, hx⟩
  have hdelete : (driveStorage someStorage wholePager).exec twoFiles (.delete "a") (.ok ())
      (twoFiles.remove "a") := by
    obtain ⟨evs, hx⟩ := GoogleDriveStorage.delete_runs (D := wholePager) someStorage
      ⟨twoFiles, none⟩ (show "a" ∈ twoFiles.files.map Stored.id by decide)
    exact ⟨none, evs, none, hx⟩
  have hx : ∃ h w', Exec (Alone (mapPorts.onDrive someStorage wholePager) 0) ([], driveWorld)
      (createBackup keepOne).run (created keepOne "f" 0 newInfo ++
        [⟨.list maxPageSize none, .ok ⟨[newInfo, someInfo], none⟩⟩, ⟨.delete "a", .ok ()⟩,
          ⟨.unlock, ()⟩]) (.ret (.ok newInfo)) (h, w') :=
    ⟨_, _,
      alone_cons (.locked rfl) <|
      alone_cons (.tempFile rfl (by simp [driveWorld])) <|
      alone_cons (.dump _ rfl) <|
      alone_cons (.now 0) <|
      alone_cons (.upload _ _ rfl (notBusy_ok _) hupload) <|
      alone_cons .dropFile <|
      alone_cons (.list _ (notBusy_ok _) hlist) <|
      alone_cons (.delete _ (notBusy_ok _) hdelete) <|
      alone_cons .unlock <|
      .nil _ _⟩
  obtain ⟨h, w', hx⟩ := hx
  have hk : keepOne.retention = some 1 := rfl
  obtain ⟨_, d, hd⟩ := create_prunes hk hx (List.mem_append_left _ upload_mem_created)
  exact ⟨_, h, w', d, hx, hd⟩

end FastBackup

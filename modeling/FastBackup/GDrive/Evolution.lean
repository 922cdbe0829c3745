import FastBackup.GDrive.Prune
import FastBackup.Server.Snapshot

namespace FastBackup
open Interaction Paging
set_option autoImplicit true

variable {St DB : Type} {P : Ports St DB} {self : GoogleDriveStorage} {D : DrivePager}
  {c₀ c c' : Service Drive DB}

/-- What a call of an operation does to the files of Drive. -/
theorem Handle.drive_cases {w w' : World Drive DB} {e : Call} {r : e.Reply}
    (hh : Handle (P.onDrive self D) t w e r w') : w'.store = w.store ∨
      (∃ id, e = .delete id ∧ w'.store = w.store.erase id) ∨
      ∃ req content f, e = .upload req ∧ w.folder req.path = some content ∧
        f.Completes (uploadMetadata req self.folderId) content ∧ w.store.Inserted f w'.store := by
  cases hh with
  | upload content s' hf _ hs =>
    obtain ⟨dst, evs, dst', hx⟩ := hs
    have heff := GoogleDriveStorage.exec_upload hx
    rename Except Error BackupInfo => r
    cases r with
    | ok info =>
      obtain ⟨f, hc, hi, _⟩ := heff
      exact .inr (.inr ⟨_, content, f, rfl, hf, hc, hi⟩)
    | error e =>
      rcases heff with hd | ⟨f, hc, hi⟩
      · exact .inl hd
      · exact .inr (.inr ⟨_, content, f, rfl, hf, hc, hi⟩)
  | delete s' _ hs =>
    rcases (GoogleDriveStorage.delete_performs hs).1 with hd | hd
    · exact .inl hd
    · exact .inr (.inl ⟨_, rfl, hd⟩)
  | list _ _ hs | latest _ _ hs | get _ _ hs | download _ _ hs | downloadError _ _ _ hs =>
    exact .inl ((P.onDrive self D).storage.read_only rfl hs)
  | _ => exact .inl rfl

/-- What a listing shows are files of the folder. -/
theorem Handle.listed_files {w w' : World Drive DB} {page : Page BackupInfo}
    (hh : Handle (P.onDrive self D) t w (.list size token) (.ok page) w') (hi : i ∈ page.items) :
    ∃ f ∈ w.store.folder self.folderId, f.backup = some i := by
  cases hh with
  | list _ _ hs =>
    obtain ⟨_, _, _, _, rfl⟩ := GoogleDriveStorage.list_performs hs
    obtain ⟨f, hf, hb⟩ := List.mem_filterMap.1 hi
    exact ⟨f, Pager.mem_of_entries hf, hb⟩

/-- While an operation with the guard only lists and deletes, Drive gets no file. -/
def Dwindles (h : Hist Drive DB) (w : World Drive DB) : Prop :=
  ∀ h₁ en h₂, h = h₁ ++ en :: h₂ → holding (h₁.map Entry.event) = true →
    (∀ en' ∈ en :: h₂, en'.event.call.prunes = true) → w.store.files ⊆ en.pre.store.files

theorem Handle.dwindles {w w' : World Drive DB} {e : Call} {r : e.Reply}
    (hh : Handle (P.onDrive self D) t w e r w') (hp : e.prunes = true) :
    w'.store.files ⊆ w.store.files := by
  intro f hf
  rcases hh.drive_cases with hs | ⟨id, _, hs⟩ | ⟨req, _, _, rfl, _⟩
  · rwa [hs] at hf
  · rw [hs] at hf
    exact (Drive.mem_erase.1 hf).1
  · cases hp

theorem Dwindles.step {w w₁ w₂ : World Drive DB} {r : e.Reply} (hd : Dwindles h w)
    (hu : Undisturbed t h w w₁) (hh : Handle (P.onDrive self D) t w₁ e r w₂) :
    Dwindles (h ++ [⟨⟨e, r⟩, w₁, w₂⟩]) w₂ := by
  intro h₁ en h₂ hsplit hhold hprune
  rcases List.eq_nil_or_concat h₂ with rfl | ⟨h₃, en', rfl⟩
  · obtain ⟨_, he⟩ := List.append_inj' hsplit rfl
    rw [List.singleton_inj] at he
    subst he
    exact hh.dwindles (hprune _ (List.mem_cons_self ..))
  · rw [List.concat_eq_append, ← List.cons_append, ← List.append_assoc] at hsplit
    obtain ⟨rfl, he⟩ := List.append_inj' hsplit rfl
    rw [List.singleton_inj] at he
    subst he
    rw [List.concat_eq_append, ← List.cons_append] at hprune
    have hp : ∀ en' ∈ en :: h₃, en'.event.call.prunes = true :=
      fun en' hm => hprune en' (List.mem_append_left _ hm)
    have hall : holding ((h₁ ++ en :: h₃).map Entry.event) = true := by
      rw [List.map_append, holding_append, hhold]
      intro ev hm
      obtain ⟨en', hm', rfl⟩ := List.mem_map.1 hm
      exact Call.prunes_awaits (hp en' hm')
    have hlast := hh.dwindles (hprune ⟨⟨e, r⟩, w₁, w₂⟩
      (List.mem_append_right _ (List.mem_singleton_self _)))
    rw [(hu hall).1] at hlast
    exact List.Subset.trans hlast (hd h₁ en h₃ rfl hhold hp)

theorem exec_dwindles {p q : Svc α}
    (hx : Exec (Under (machine (P.onDrive self D)) t (Undisturbed t)) ([], w₀) p evs q (h, w)) :
    Dwindles h w := by
  refine Safe.invariant Dwindles (Meets.top p []) ?_ ?_ hx
  · intro h w e r w₁ w₂ hd _ hu hh
    exact hd.step hu hh
  · intro h₁ en h₂ he
    simp at he

/-- The file that retention asks Drive to delete is a prunable backup of the folder. -/
theorem delete_prunable {x : Client Drive DB} {id : String} {k : Except Error Unit → Svc Outcome}
    (hc : c₀.Initial) (hr : Service.Steps (P.onDrive self D) c₀ c) (hx : c.tasks t = some x)
    (ha : x.phase.active = true) (hk : x.rest = .call (.delete id) k)
    (hf : f ∈ c.world.store.files) (hid : f.id = id) :
    f ∈ c.world.store.folder self.folderId ∧ ∃ b, f.backup = some b ∧ prunable b = true := by
  obtain ⟨b, token, page, w₁, w₂, h₁, h₂, w₀, w, rfl, hp, hitem, hlist, hhist, hheld, hprune, hex,
    hstore⟩ := delete_listed hc hr hx ha hk
  obtain ⟨g, hg, hgb⟩ := Handle.listed_files hlist hitem
  obtain ⟨hgf, hgin⟩ := List.mem_filter.1 hg
  have hold : f ∈ w₁.store.files := by
    rw [hstore] at hf
    exact exec_dwindles hex h₁ _ h₂ hhist hheld hprune hf
  have hfg : f = g := Drive.eq_of_id hold hgf (hid.trans (Stored.backup_id hgb))
  subst hfg
  exact ⟨List.mem_filter.2 ⟨hf, hgin⟩, b, hgb, hp⟩

/-- Only the reply to a call of an operation changes the storage. -/
theorem step_store {P : Ports St DB} {c c' : Service St DB} (hs : Service.Step P c c') :
    c'.world.store = c.world.store ∨ ∃ t x x' e r, ∃ k : e.Reply → Svc Outcome,
      c.tasks t = some x ∧ c'.tasks t = some x' ∧ x.phase.active = true ∧ x.rest = .call e k ∧
      (e.awaits = true → x.phase = .waiting) ∧ Handle P t c.world e r c'.world ∧
      x'.hist = x.hist ++ [⟨⟨e, r⟩, c.world, c'.world⟩] := by
  cases hs with
  | spawn => exact .inl rfl
  | env he =>
    cases he with
    | edit => exact .inl rfl
    | job t hj => exact .inl hj.frame.2.1
  | move t hx hm =>
    rcases hm.world_cases with hw | ⟨e, r, k, ha, hq, hh, hhist, _⟩ | ⟨e, k, _, _, _, hw⟩ | ⟨_, hw⟩
    · exact .inl (congrArg World.store hw)
    · exact .inr ⟨t, _, _, e, r, k, hx, Pool.put_self .., ha, hq, hm.waited hq (by simp [hhist]),
        hh, hhist⟩
    · refine .inl ?_
      rw [Pool.put, hw]
      cases e <;> rfl
    · refine .inl ?_
      rw [Pool.put, hw]
      rfl

/-- What a step of the service does to the files of Drive. -/
theorem step_drive (hc : c₀.Initial) (hr : Service.Steps (P.onDrive self D) c₀ c)
    (hs : Service.Step (P.onDrive self D) c c') : c'.world.store = c.world.store ∨
      (∃ t x id, ∃ k : Except Error Unit → Svc Outcome, c.tasks t = some x ∧
        x.phase.active = true ∧ x.rest = .call (.delete id) k ∧ (t, .delete id) ∈ c.trace ∧
        c'.world.store = c.world.store.remove id) ∨
      ∃ t x x' f, c.tasks t = some x ∧ c'.tasks t = some x' ∧
        c.world.store.Inserted f c'.world.store ∧
        (∀ ev ∈ x.events, ∀ req, ev.call ≠ .upload req) ∧ ∃ en ∈ x'.hist, ∃ req r,
          en.event = ⟨.upload req, r⟩ ∧ en.pre.folder req.path = some f.content ∧
          f.Completes (uploadMetadata req self.folderId) f.content := by
  rcases step_store hs with hs | ⟨t, x, x', e, r, k, hx, hx', ha, hq, hp, hh, hhist⟩
  · exact .inl hs
  · rcases hh.drive_cases with hs | ⟨id, rfl, hs⟩ | ⟨req, content, f, rfl, hf, hcomp, hi⟩
    · exact .inl hs
    · rw [Drive.erase_eq_remove (delete_agrees hc hr hx ha hq).1] at hs
      exact .inr (.inl ⟨t, x, id, k, hx, ha, hq, waiting_issued hc.pool hr hx (hp rfl) hq, hs⟩)
    · have hrun := task_runs hc.pool hr t _ hx
      rw [hq] at hrun
      have hcontent := hcomp.content
      subst hcontent
      refine .inr (.inr ⟨t, x, x', f, hx, hx', hi, (upload_ready hrun).1, ?_⟩)
      rw [hhist]
      exact ⟨_, List.mem_append_right _ (List.mem_singleton_self _), req, r, rfl, hf, hcomp⟩

/-- What the service did not put on Drive stays there: between any two states of a run, a file
goes only if it is a regular backup in `PgCustom` format in the folder of the service, and a
`create_backup` asked for its deletion. Everything else on Drive stays as it was: files of other
folders, files that are no backups, trashed files, pre-restore copies and legacy backups. -/
theorem unrelated_files_kept (hc : c₀.Initial) (hr : Service.Steps (P.onDrive self D) c₀ c)
    (hr' : Service.Steps (P.onDrive self D) c c') (hf : f ∈ c.world.store.files) :
    f ∈ c'.world.store.files ∨ (∃ t, (t, .delete f.id) ∈ c'.trace) ∧
      f ∈ c.world.store.folder self.folderId ∧ ∃ b, f.backup = some b ∧ prunable b = true := by
  induction hr' with
  | refl => exact .inl hf
  | @tail c₁ c₂ hr' hs ih =>
    rcases ih with hin | ⟨⟨t, hm⟩, hp⟩
    · rcases step_drive hc (hr.trans hr') hs with
        he | ⟨t, x, id, k, hx, ha, hk, hm, he⟩ | ⟨_, _, _, g, _, _, hi, _⟩
      · rw [he]
        exact .inl hin
      · by_cases hid : f.id = id
        · subst hid
          obtain ⟨hfold, hb⟩ := delete_prunable hc (hr.trans hr') hx ha hk hin rfl
          exact .inr ⟨⟨t, hs.trace_mono hm⟩,
            List.mem_filter.2 ⟨hf, (List.mem_filter.1 hfold).2⟩, hb⟩
        · rw [he]
          exact .inl (Drive.mem_remove.2 ⟨hin, hid⟩)
      · exact .inl (hi.mem_iff.2 (.inr hin))
    · exact .inr ⟨⟨t, hs.trace_mono hm⟩, hp⟩

theorem someDrive_upload : (driveStorage someStorage wholePager).exec (someDrive plainMime)
    (.upload (.pgDump "f" "db" .regular 0) [1]) (.ok newInfo) twoFiles := by
  have hf : newFile.Completes
      (uploadMetadata (.pgDump "f" "db" .regular 0) someStorage.folderId) [1] :=
    ⟨rfl, rfl, rfl, rfl, rfl, rfl⟩
  have hi : (someDrive plainMime).Inserted newFile twoFiles := ⟨[], _, rfl, rfl⟩
  have hb : newFile.backup = some newInfo := by decide +kernel
  obtain ⟨evs, hx⟩ := GoogleDriveStorage.upload_runs (D := wholePager) someStorage
    ⟨someDrive plainMime, none⟩ hf hi hb
  exact ⟨none, evs, none, hx⟩

/-- A `create_backup` that keeps one backup and has just asked for the old one to be deleted. -/
theorem driveWorld_prune : ∃ c₀ c c' : Service Drive Bytes, c₀.Initial ∧
    Service.Steps (mapPorts.onDrive someStorage wholePager) c₀ c ∧
    Service.Step (mapPorts.onDrive someStorage wholePager) c c' ∧
    c₀.world.store = someDrive plainMime ∧ c.world.store = twoFiles ∧
    c'.world.store = twoFiles.remove "a" ∧
    (∀ t x, c.tasks t = some x → x.op.deps.retention = some 1) ∧
    ∃ x, c.tasks 0 = some x ∧ ∃ en ∈ x.hist,
      en.event = ⟨.upload (.pgDump "f" "db" .regular 0), .ok newInfo⟩ := by
  have hlist : (driveStorage someStorage wholePager).exec twoFiles (.list maxPageSize none)
      (.ok ⟨[newInfo, someInfo], none⟩) twoFiles := by
    have hs : wholePager.start none = some 0 := rfl
    obtain ⟨evs, hx⟩ := GoogleDriveStorage.list_runs someStorage ⟨twoFiles, none⟩ maxPageSize hs
    have hp : (wholePager.entries (twoFiles.folder "f") (min maxPageSize (2 ^ 31 - 1))
        none).filterMap Stored.backup = [newInfo, someInfo] := by
      decide +kernel
    rw [show someStorage.folderId = "f" from rfl, hp] at hx
    exact ⟨none, evs, none, hx⟩
  have hdelete : (driveStorage someStorage wholePager).exec twoFiles (.delete "a") (.ok ())
      (twoFiles.remove "a") := by
    obtain ⟨evs, hx⟩ := GoogleDriveStorage.delete_runs (D := wholePager) someStorage
      ⟨twoFiles, none⟩ (show "a" ∈ twoFiles.files.map Stored.id by decide)
    exact ⟨none, evs, none, hx⟩
  have hx : ∃ h w k, w.store = twoFiles ∧
      Exec (Alone (mapPorts.onDrive someStorage wholePager) 0) ([], driveWorld)
        (Request.body ⟨keepOne, .createBackup⟩) (created keepOne "f" 0 newInfo ++
          [⟨.list maxPageSize none, .ok ⟨[newInfo, someInfo], none⟩⟩])
        (.call (.delete "a") k) (h, w) :=
    ⟨_, _, _, rfl,
      alone_cons (.locked rfl) <|
      alone_cons (.tempFile rfl (by simp [driveWorld])) <|
      alone_cons (.dump _ rfl) <|
      alone_cons (.now 0) <|
      alone_cons (.upload _ _ rfl (notBusy_ok _) someDrive_upload) <|
      alone_cons .dropFile <|
      alone_cons (.list _ (notBusy_ok _) hlist) <|
      .nil _ _⟩
  obtain ⟨h, w, k, hw, hx⟩ := hx
  obtain ⟨c₀, c, hc, hw₀, hr, hwc, _, ht, ho⟩ := service_of_exec hx rfl (fun _ => rfl) rfl
    (by simp [created, copied])
  have hstore : c.world.store = twoFiles := by
    rw [hwc]
    exact hw
  have hh : Handle (mapPorts.onDrive someStorage wholePager) 0 c.world (.delete "a") (.ok ())
      { c.world with store := twoFiles.remove "a" } :=
    .delete _ (notBusy_ok _) (hstore ▸ hdelete)
  refine ⟨c₀, c, _, hc, hr, .move 0 ht (.effect rfl rfl hh), by rw [hw₀]; rfl, hstore, rfl, ?_,
    _, ht, ?_⟩
  · intro t x hx
    by_cases h0 : t = 0
    · rw [h0, ht, Option.some.injEq] at hx
      rw [← hx]
      rfl
    · rw [ho t h0] at hx
      cases hx
  · apply List.mem_map.1
    rw [exec_events hx]
    simp [created, copied, keepOne]

theorem unrelated_files_kept_prune : ∃ c₀ c : Service Drive Bytes, c₀.Initial ∧
    Service.Steps (mapPorts.onDrive someStorage wholePager) c₀ c ∧
    ∃ f ∈ c₀.world.store.files, f ∉ c.world.store.files ∧ (∃ t, (t, .delete f.id) ∈ c.trace) ∧
      f ∈ c₀.world.store.folder someStorage.folderId ∧
      ∃ b, f.backup = some b ∧ prunable b = true := by
  obtain ⟨c₀, c, c', hc, hr, hs, h₀, _, h₂, _⟩ := driveWorld_prune
  have hf : someFile "a" "a.pgdump" plainMime ∈ c₀.world.store.files := by
    rw [h₀]
    exact List.mem_singleton_self _
  have hn : someFile "a" "a.pgdump" plainMime ∉ c'.world.store.files := by
    rw [h₂]
    exact fun hm => (Drive.mem_remove.1 hm).2 rfl
  rcases unrelated_files_kept hc .refl (hr.tail hs) hf with hm | hgone
  · exact absurd hm hn
  · exact ⟨c₀, c', hc, hr.tail hs, _, hf, hn, hgone⟩

/-- `f` is a dump that operation `t` took and uploaded. -/
def UploadedBy (P : Ports St DB) (self : GoogleDriveStorage) (c : Service Drive DB) (f : Stored)
    (t : Nat) : Prop :=
  ∃ x, c.tasks t = some x ∧ ∃ req r, (∃ en ∈ x.hist, en.event = ⟨.upload req, r⟩) ∧
    f.Completes (uploadMetadata req self.folderId) f.content ∧
    ∃ en ∈ x.hist, en.event = ⟨.dump req.path, .ok ()⟩ ∧ P.dumps en.pre.db f.content

theorem UploadedBy.step (hu : UploadedBy P self c f t)
    (hs : Service.Step (P.onDrive self D) c c') : UploadedBy P self c' f t := by
  obtain ⟨x, hx, req, r, ⟨en, hen, he⟩, hcomp, en', hen', hd⟩ := hu
  obtain ⟨x', hx', hpre⟩ := hs.hist_kept hx
  exact ⟨x', hx', req, r, ⟨en, hpre.subset hen, he⟩, hcomp, en', hpre.subset hen', hd⟩

theorem uploadedBy_of_step {x' : Client Drive DB} {en : Entry (World Drive DB) Call Call.Reply}
    {r : Except Error BackupInfo} (hc : c₀.Initial)
    (hr : Service.Steps (P.onDrive self D) c₀ c) (hx : c.tasks t = some x') (hen : en ∈ x'.hist)
    (hev : en.event = ⟨.upload req, r⟩) (hcont : en.pre.folder req.path = some f.content)
    (hcomp : f.Completes (uploadMetadata req self.folderId) f.content) :
    UploadedBy P self c f t := by
  obtain ⟨en', hen', dump, hd, hdump, hf⟩ := uploaded_dump hc hr hx hen hev
  rw [hcont, Option.some.injEq] at hf
  subst hf
  exact ⟨x', hx, req, r, ⟨en, hen, hev⟩, hcomp, en', hen', hd, hdump⟩

/-- The operation that adds a file has uploaded none before. -/
theorem file_added (hc : c₀.Initial) (hr : Service.Steps (P.onDrive self D) c₀ c)
    (hs : Service.Step (P.onDrive self D) c c') (hf : f ∈ c'.world.store.files)
    (hn : f ∉ c.world.store.files) : ∃ t x, c.tasks t = some x ∧
      (∀ ev ∈ x.events, ∀ req, ev.call ≠ .upload req) ∧ UploadedBy P self c' f t := by
  rcases step_drive hc hr hs with he | ⟨_, _, _, _, _, _, _, _, he⟩ |
    ⟨t, x, x', g, hx, hx', hi, hfirst, en, hen, req, r, hev, hcont, hcomp⟩
  · rw [he] at hf
    exact absurd hf hn
  · rw [he] at hf
    exact absurd (Drive.mem_remove.1 hf).1 hn
  · rcases hi.mem_iff.1 hf with rfl | hf
    · exact ⟨t, x, hx, hfirst, uploadedBy_of_step hc (hr.tail hs) hx' hen hev hcont hcomp⟩
    · exact absurd hf hn

/-- The new files belong to different operations. -/
theorem files_owned (hc : c₀.Initial) (hr : Service.Steps (P.onDrive self D) c₀ c) :
    ∃ owner : String → Nat,
      (∀ f ∈ c.world.store.files, f ∉ c₀.world.store.files →
        UploadedBy P self c f (owner f.id)) ∧
      ∀ f ∈ c.world.store.files, f ∉ c₀.world.store.files →
        ∀ g ∈ c.world.store.files, g ∉ c₀.world.store.files →
          owner f.id = owner g.id → f = g := by
  induction hr with
  | refl => exact ⟨fun _ => 0, fun f hf hn => absurd hf hn, fun f hf hn => absurd hf hn⟩
  | @tail c c' hr hs ih =>
    obtain ⟨owner, hown, hinj⟩ := ih
    rcases step_drive hc hr hs with he | ⟨_, _, _, _, _, _, _, _, he⟩ |
      ⟨t, x, x', f, hx, hx', hi, hfirst, en, hen, req, r, hev, hcont, hcomp⟩
    · rw [he]
      exact ⟨owner, fun f hf hn => (hown f hf hn).step hs, hinj⟩
    · have hsub : ∀ f ∈ c'.world.store.files, f ∈ c.world.store.files := by
        intro f hf
        rw [he] at hf
        exact (Drive.mem_remove.1 hf).1
      exact ⟨owner, fun f hf hn => (hown f (hsub f hf) hn).step hs,
        fun f hf hn g hg hn' => hinj f (hsub f hf) hn g (hsub g hg) hn'⟩
    · -- the operation that uploads now has not uploaded before
      have hnew : ∀ g ∈ c.world.store.files, g ∉ c₀.world.store.files → owner g.id ≠ t := by
        intro g hg hn ht
        obtain ⟨y, hy, req', _, ⟨en', hen', he'⟩, _⟩ := hown g hg hn
        rw [ht, hx, Option.some.injEq] at hy
        subst hy
        refine hfirst en'.event (List.mem_map_of_mem hen') req' ?_
        rw [he']
      have hid : ∀ g ∈ c.world.store.files, g.id ≠ f.id := fun g hg => hi.fresh hg
      refine ⟨Function.update owner f.id t, ?_, ?_⟩
      · intro g hg hn
        rcases hi.mem_iff.1 hg with rfl | hg
        · rw [Function.update_self]
          exact uploadedBy_of_step hc (hr.tail hs) hx' hen hev hcont hcomp
        · rw [Function.update_of_ne (hid g hg)]
          exact (hown g hg hn).step hs
      · intro g hg hn g' hg' hn' ho
        rcases hi.mem_iff.1 hg with rfl | hg
        · rcases hi.mem_iff.1 hg' with rfl | hg'
          · rfl
          · rw [Function.update_self, Function.update_of_ne (hid g' hg')] at ho
            exact absurd ho.symm (hnew g' hg' hn')
        · rcases hi.mem_iff.1 hg' with rfl | hg'
          · rw [Function.update_self, Function.update_of_ne (hid g hg)] at ho
            exact absurd ho (hnew g hg hn)
          · rw [Function.update_of_ne (hid g hg), Function.update_of_ne (hid g' hg')] at ho
            exact hinj g hg hn g' hg' hn' ho

/-- Every file that comes to Drive in a run is the dump of one operation: its metadata is that of
the upload, in the folder of the service, its content is a dump of the database taken by the same
operation, and no two of the new files come from one operation. Whenever a file comes, the operation
that adds it has uploaded none before, so that none adds two files over the whole run. -/
theorem new_files_uploaded (hc : c₀.Initial) (hr : Service.Steps (P.onDrive self D) c₀ c) :
    (∃ owner : String → Nat,
      (∀ f ∈ c.world.store.files, f ∉ c₀.world.store.files →
        UploadedBy P self c f (owner f.id)) ∧
      ∀ f ∈ c.world.store.files, f ∉ c₀.world.store.files →
        ∀ g ∈ c.world.store.files, g ∉ c₀.world.store.files →
          owner f.id = owner g.id → f = g) ∧
    ∀ c', Service.Step (P.onDrive self D) c c' → ∀ f ∈ c'.world.store.files,
      f ∉ c.world.store.files → ∃ t x, c.tasks t = some x ∧
        (∀ ev ∈ x.events, ∀ req, ev.call ≠ .upload req) ∧ UploadedBy P self c' f t :=
  ⟨files_owned hc hr, fun _ hs _ hf hn => file_added hc hr hs hf hn⟩

/-- A `create_backup` next to the backup that `driveWorld` has. -/
theorem driveWorld_create : ∃ c₀ c : Service Drive Bytes, c₀.Initial ∧
    Service.Steps (mapPorts.onDrive someStorage wholePager) c₀ c ∧
    c₀.world.store = someDrive plainMime ∧ c.world.store = twoFiles := by
  have hx : ∃ h w, w.store = twoFiles ∧
      Exec (Alone (mapPorts.onDrive someStorage wholePager) 0) ([], driveWorld)
        createRequest.body (created keepAll "f" 0 newInfo ++ [⟨.unlock, ()⟩])
        (.ret (.backup (.ok newInfo))) (h, w) :=
    ⟨_, _, rfl,
      alone_cons (.locked rfl) <|
      alone_cons (.tempFile rfl (by simp [driveWorld])) <|
      alone_cons (.dump _ rfl) <|
      alone_cons (.now 0) <|
      alone_cons (.upload _ _ rfl (notBusy_ok _) someDrive_upload) <|
      alone_cons .dropFile <|
      alone_cons .unlock <|
      .nil _ _⟩
  obtain ⟨h, w, hw, hx⟩ := hx
  obtain ⟨c₀, c, hc, hw₀, hr, hw', _⟩ := service_runs hx rfl (fun _ => rfl)
    (by simp [created, copied])
  exact ⟨c₀, c, hc, hr, by rw [hw₀]; rfl, by rw [hw', hw]⟩

theorem new_files_uploaded_create : ∃ c₀ c : Service Drive Bytes, c₀.Initial ∧
    Service.Steps (mapPorts.onDrive someStorage wholePager) c₀ c ∧
    ∃ t, UploadedBy mapPorts someStorage c newFile t := by
  obtain ⟨c₀, c, hc, hr, h₀, h₁⟩ := driveWorld_create
  obtain ⟨⟨owner, hown, _⟩, _⟩ := new_files_uploaded hc hr
  refine ⟨c₀, c, hc, hr, _, hown newFile ?_ ?_⟩
  · rw [h₁]
    exact List.mem_cons_self ..
  · rw [h₀]
    intro hm
    have hid := congrArg Stored.id (List.mem_singleton.1 hm)
    exact absurd hid (by decide)

end FastBackup

import FastBackup.Server.Create
import FastBackup.Server.Undo

namespace FastBackup
open Interaction
set_option autoImplicit true

variable {St DB : Type} {P : Ports St DB} {c₀ c c' : Service St DB}

/-- The calls of `dump_and_upload` before the upload. -/
def dumped (file : Path) (time : DateTime) : List Ev :=
  [⟨.tempFile ".pgdump", .ok file⟩, ⟨.dump file, .ok ()⟩, ⟨.now, time⟩]

/-- An upload comes right after the dump of the file it sends, and is the first one. -/
def UploadReady (h : List Ev) : Call → Prop
  | .upload req => (∀ ev ∈ h, ∀ req, ev.call ≠ .upload req) ∧
      ∃ h₀ files file db kind time, At true files h₀ ∧ h = h₀ ++ dumped file time ∧
        req = .pgDump file db kind time
  | _ => True

theorem createBackup_ready (deps : ServiceDeps) :
    Safe UploadReady (fun _ _ => True) [] (createBackup deps).run := by
  refine safe_withLock trivial (fun _ => trivial) trivial ?_
  refine safe_dumpAndUpload ?_ (fun _ => trivial) ?_ (fun _ _ _ _ _ => trivial) ?_
  · intro h e he ha
    cases e with
    | tempFile | now | dropFile => trivial
    | dump | upload => cases ha
    | _ => cases he
  · intro file time h' hh
    exact ⟨by simp [hh], [⟨.tryLock, true⟩], [], file, _, _, time, ⟨rfl, rfl⟩, hh, rfl⟩
  · intro file time info h' _
    refine Meets.bindE (x := ExceptT.lift (pruneOldBackups deps)) ?_
    refine Meets.bind (p := pruneOldBackups deps) ?_
    refine (safe_pruneOldBackups ?_ ?_).post_mono (fun _ _ _ => trivial)
    · exact fun _ _ _ _ _ => trivial
    · exact fun _ _ _ _ _ _ _ _ _ _ _ _ _ => trivial

theorem restore_ready (deps : ServiceDeps) (target : BackupTarget) (confirm : String) :
    Safe UploadReady (fun _ _ => True) [] (restore deps target confirm).run := by
  unfold restore
  by_cases hc : confirm ≠ deps.restorerDbName
  · rw [if_pos hc]
    trivial
  · rw [if_neg hc]
    refine safe_withLock trivial (fun _ => trivial) trivial ?_
    refine safe_resolve (fun _ _ => trivial) (fun _ => trivial) (fun _ _ _ => trivial) ?_
    intro restored
    by_cases hf : restored.format ≠ .pgCustom
    · simp only [if_pos hf]
      trivial
    · simp only [if_neg hf]
      refine safe_tempFile trivial (fun _ => trivial) ?_
      intro src
      refine safe_inScope (fun _ => trivial) ?_
      refine Meets.bindE (Safe.call trivial ?_)
      intro r
      cases r with
      | error e => trivial
      | ok u =>
        refine safe_dumpAndUpload ?_ (fun _ => trivial) ?_ (fun _ _ _ _ _ => trivial) ?_
        · intro h e he ha
          cases e with
          | tempFile | now | dropFile => trivial
          | dump | upload => cases ha
          | _ => cases he
        · intro file time h' hh
          refine ⟨?_, _, [src], file, _, _, time, ?_, hh, rfl⟩
          · rw [hh]
            cases target <;> simp [resolved]
          · cases target <;> exact ⟨rfl, rfl⟩
        · intro file time preRestore h' _
          refine Meets.bindE (Safe.call trivial ?_)
          intro r
          cases r <;> trivial

/-- In every operation. -/
theorem upload_ready {q : Request} {k : Except Error BackupInfo → Svc Outcome}
    (hr : Runs q.body h (.call (.upload req) k)) : UploadReady h (.upload req) := by
  have hhold : holding h = true := ((disc_body q).pre_of_runs hr).1
  obtain ⟨deps, op⟩ := q
  have hsafe : op.writing = true →
      Safe UploadReady (fun _ _ => True) [] (Request.body ⟨deps, op⟩) := by
    intro hw
    cases op with
    | createBackup => exact Meets.map (createBackup_ready deps)
    | restore target confirm => exact Meets.map (restore_ready deps target confirm)
    | list | resolve | download | downloadBackup => cases hw
  cases hw : op.writing with
  | true => exact (hsafe hw).pre_of_runs hr
  | false =>
    rw [reader_not_holding hw hr] at hhold
    cases hhold

/-- What an operation uploads is a dump of the database that it took before. -/
theorem uploaded_dump {x : Client St DB} {en : Entry (World St DB) Call Call.Reply}
    {r : Except Error BackupInfo} (hc : c₀.Initial) (hr : Service.Steps P c₀ c)
    (hx : c.tasks t = some x) (hen : en ∈ x.hist) (he : en.event = ⟨.upload req, r⟩) :
    ∃ en' ∈ x.hist, ∃ dump, en'.event = ⟨.dump req.path, .ok ()⟩ ∧ P.dumps en'.pre.db dump ∧
      en.pre.folder req.path = some dump := by
  obtain ⟨w₀, w, hex, _⟩ := (guard_rely hc).exec hc.pool hr t x hx
  obtain ⟨h₁, h₂, hh⟩ := List.append_of_mem hen
  obtain ⟨h', hh', hentry⟩ := exec_entry hex
  obtain ⟨w₁, k, hex₁, hrel, _⟩ := hentry h₁ en h₂ (hh'.symm.trans hh)
  obtain ⟨ev, a, b⟩ := en
  subst he
  obtain ⟨_, h₀, files, file, db, kind, time, hat, hev, rfl⟩ := upload_ready hex₁.runs
  rw [hev] at hex₁
  obtain ⟨p₁, ⟨h₃, w₂⟩, hx₁, hx₂⟩ := hex₁.split
  have hat : At true files (h₃.map Entry.event) := by
    rw [exec_events hx₁]
    exact hat
  have hρ : ∀ h (w w' : World St DB), Undisturbed t h w w' → Undisturbed t h w w' :=
    fun _ _ _ hu => hu
  obtain ⟨a₁, b₁, _, _, _, _, hat, hx₂⟩ := guarded_call hρ hat (hat.tempFile _ _) hx₂
  obtain ⟨a₂, b₂, _, _, _, hd, hat, hx₂⟩ := guarded_call hρ hat (hat.same _ (.inl rfl)) hx₂
  obtain ⟨a₃, b₃, _, _, hf₃, hn, hat, hx₂⟩ := guarded_call hρ hat (hat.same _ (.inr rfl)) hx₂
  cases hx₂ with
  | nil =>
  cases hd with
  | dump dump hd =>
  cases hn with
  | now =>
  have hfile : file ∈ file :: files := List.mem_cons_self ..
  obtain ⟨_, _, hf⟩ := hrel hat.1
  refine ⟨⟨_, a₂, a₂.write file (some dump)⟩, ?_, dump, rfl, hd, ?_⟩
  · rw [hh]
    exact List.mem_append_left _ (List.mem_append_left _
      (List.mem_append_right _ (List.mem_singleton_self _)))
  · exact (hf file (hat.mem hfile)).trans ((hf₃ file hfile).trans (World.write_self ..))

/-- While nobody asks for its deletion, a stored backup stays. -/
theorem stored_while_undeleted {id : String} (hc : c₀.Initial) (hr : Service.Steps P c₀ c)
    (hr' : Service.Steps P c c') (hd : ∀ t, (t, .delete id) ∉ c'.trace)
    (hl : P.storage.lookup c.world.store id = some y) :
    P.storage.lookup c'.world.store id = some y := by
  induction hr' with
  | refl => exact hl
  | @tail c₁ c₂ hr' hs ih =>
    have hl := ih fun t hm => hd t (hs.trace_mono hm)
    cases hs with
    | spawn => exact hl
    | env he =>
      cases he with
      | edit => exact hl
      | job t hj => rwa [hj.frame.2.1]
    | move t hx hm =>
      rcases hm.world_cases with hw | ⟨e, r, k, ha, hq, hh, hhist, _⟩ | ⟨e, k, _, _, _, hw⟩ |
        ⟨_, hw⟩
      · rw [Pool.put, hw]
        exact hl
      · refine hh.lookup_kept ?_ ?_ hl
        · rintro rfl
          have hp := hm.waited hq (by simp [hhist]) rfl
          exact hd t (List.mem_append_left _
            (waiting_issued hc.pool (hr.trans hr') hx hp hq))
        · rintro id' rfl
          exact (delete_agrees hc (hr.trans hr') hx ha hq).1
      · rw [Pool.put, hw]
        cases e <;> exact hl
      · rw [Pool.put, hw]
        exact hl

/-- What an operation uploaded is stored as long as nobody asks for its deletion. -/
theorem uploaded_while_undeleted {x : Client St DB} {en : Entry (World St DB) Call Call.Reply}
    (hc : c₀.Initial) (hr : Service.Steps P c₀ c) (hx : c.tasks t = some x) (hen : en ∈ x.hist)
    (he : en.event = ⟨.upload req, .ok info⟩) (hd : ∀ t, (t, .delete info.id) ∉ c.trace) :
    ∃ content, en.pre.folder req.path = some content ∧
      P.storage.lookup c.world.store info.id = some (info, content) := by
  refine entries_invariant (fun c _ en => ∀ req info, en.event = ⟨.upload req, .ok info⟩ →
    (∀ t, (t, .delete info.id) ∉ c.trace) → ∃ content, en.pre.folder req.path = some content ∧
      P.storage.lookup c.world.store info.id = some (info, content))
    ?_ ?_ hc.pool hr t x hx en hen req info he hd
  · intro c₁ c₂ t en hr hs hi req info he hd
    obtain ⟨content, hf, hl⟩ := hi req info he fun t hm => hd t (hs.trace_mono hm)
    exact ⟨content, hf, stored_while_undeleted hc hr (.single hs) hd hl⟩
  · intro c₁ c₂ t x e r k hr hs hx _ _ hq hh req info he _
    cases he
    obtain ⟨content, hf, hadds⟩ := Handle.uploaded hh
    exact ⟨content, hf, hadds.lookup_new⟩

/-- A `restore` that reports to have restored the stored backup `info` has set the database to
what its bytes are a dump of. -/
theorem restored_of_stored {y : Client St DB} (hc : c₀.Initial) (hr : Service.Steps P c₀ c)
    (hy : c.tasks t = some y) (hop : y.op = ⟨deps, .restore target confirm⟩)
    (hk : y.rest = .ret (.restored (.ok out))) (hid : out.restored.id = info.id)
    (hd : P.dumps d dump)
    (hl : ∀ en ∈ y.hist, P.storage.lookup en.pre.store info.id = some (info, dump)) :
    out.restored = info ∧
      ∃ en ∈ y.hist, (∃ src, en.event = ⟨.restore src, .ok ()⟩) ∧ en.post.db = d := by
  obtain ⟨w₀, w, hex, _⟩ := (guard_rely hc).exec hc.pool hr t y hy
  rw [hk, hop] at hex
  obtain ⟨_, _, src, file, time, hev⟩ := (shape_body _).post_of_runs hex.runs
  rw [hev] at hex
  obtain ⟨p₁, ⟨h₁, w₁⟩, hx₁, hx₂⟩ := hex.split
  obtain ⟨content, dump', hp⟩ := prepared_worlds (fun _ _ _ hu => hu) hx₁
  have hat : At true [src] (h₁.map Entry.event) := by
    rw [hp.events]
    exact at_prepared
  obtain ⟨a, b, _, _, hf, hh, _, hx₂⟩ :=
    guarded_call (fun _ _ _ hu => hu) hat (hat.same _ (.inl rfl)) hx₂
  obtain ⟨h', hh', _⟩ := exec_entry hx₂
  obtain ⟨first, rest, rfl, _, hlook, _⟩ := hp.locked
  have hmem : ∀ en ∈ first :: rest ++ [⟨⟨.restore src, .ok ()⟩, a, b⟩], en ∈ y.hist := by
    intro en hm
    rw [show y.hist = _ from hh']
    exact List.mem_append_left _ hm
  have hsame := hl first (hmem first (by simp))
  rw [← hid, hlook] at hsame
  cases hsame
  refine ⟨rfl, _, hmem _ (List.mem_append_right _ (List.mem_singleton_self _)), ⟨src, rfl⟩, ?_⟩
  cases hh with
  | restore content d' hc hload =>
    have hsrc := (hf src (List.mem_singleton_self _)).trans hp.ready
    rw [hc, Option.some.injEq] at hsrc
    rw [hsrc, P.load_dump hd] at hload
    exact (Option.some.inj hload).symm

/-- A backup is a snapshot: what a `create_backup` that returned `Ok` has stored as `info` is a
dump of the database at one moment of its own run. As long as no operation asks for the deletion of
that id, the storage keeps exactly those bytes, and whichever later `restore` reports to have
restored this id has set the database to the value it had at that moment, whatever other
operations, edits of the database and cancellations came between. -/
theorem backup_is_snapshot {x : Client St DB} (hc : c₀.Initial) (hr : Service.Steps P c₀ c)
    (hx : c.tasks t = some x) (hop : x.op = ⟨deps, .createBackup⟩)
    (hk : x.rest = .ret (.backup (.ok info))) :
    ∃ en ∈ x.hist, ∃ file dump, en.event = ⟨.dump file, .ok ()⟩ ∧ P.dumps en.pre.db dump ∧
      ∀ c', Service.Steps P c c' → (∀ t', (t', .delete info.id) ∉ c'.trace) →
        P.storage.lookup c'.world.store info.id = some (info, dump) ∧
        ∀ t' y deps target confirm out, c.tasks t' = none → c'.tasks t' = some y →
          y.op = ⟨deps, .restore target confirm⟩ → y.rest = .ret (.restored (.ok out)) →
          out.restored.id = info.id →
          out.restored = info ∧ ∃ en' ∈ y.hist, (∃ src, en'.event = ⟨.restore src, .ok ()⟩) ∧
            en'.post.db = en.pre.db := by
  have hrun := task_runs hc.pool hr t x hx
  rw [hop, hk] at hrun
  obtain ⟨file, time, evs, _, hev⟩ := (shape_body _).post_of_runs hrun
  have hm : ⟨.upload (.pgDump file deps.dumperDbName .regular time), .ok info⟩ ∈
      x.hist.map Entry.event := by
    rw [show x.hist.map Entry.event = _ from hev]
    exact List.mem_append_left _ (List.mem_append_left _ upload_mem_created)
  obtain ⟨up, hup, he⟩ := List.mem_map.1 hm
  obtain ⟨en, hen, dump, hed, hdump, hf⟩ := uploaded_dump hc hr hx hup he
  refine ⟨en, hen, _, dump, hed, hdump, ?_⟩
  have hstored : ∀ c', Service.Steps P c c' → (∀ t', (t', .delete info.id) ∉ c'.trace) →
      P.storage.lookup c'.world.store info.id = some (info, dump) := by
    intro c' hr' hd
    obtain ⟨content, hf', hl⟩ := uploaded_while_undeleted hc hr hx hup he
      fun t' hm => hd t' (hr'.trace_mono hm)
    rw [hf, Option.some.injEq] at hf'
    rw [hf']
    exact stored_while_undeleted hc hr hr' hd hl
  intro c' hr' hd
  refine ⟨hstored c' hr' hd, ?_⟩
  intro t' y deps target confirm out hn hy hop hk hid
  refine restored_of_stored hc (hr.trans hr') hy hop hk hid hdump ?_
  intro en' hen'
  obtain ⟨c₁, h₁, h₂, hpre⟩ := entry_between hr' hn hy en' hen'
  rw [hpre]
  exact hstored c₁ h₁ fun t'' hm => hd t'' (h₂.trace_mono hm)

/-- What an operation does alone it can do next in a service. -/
theorem service_goes {q : Request} {rest : Svc Outcome}
    (hx : Exec (Alone P t) ([], c.world) q.body evs rest (h, w')) (hn : c.tasks t = none)
    (hd : ∀ ev ∈ evs, ∀ src dst, ev.call ≠ .decompress src dst) :
    ∃ c' : Service St DB, Service.Steps P c c' ∧ c'.world = w' ∧
      c'.tasks t = some ⟨q, h, rest, .ready⟩ ∧ (∀ t', t' ≠ t → c'.tasks t' = c.tasks t') ∧
      c'.trace = c.trace ++ (awaited (machine P) evs).map (t, ·) := by
  let c₁ : Service St DB := c.put t (.start Request.body q) c.world []
  have hs : Service.Step P c c₁ := .spawn t q hn
  have hc₁ : c₁.tasks t = some (.start Request.body q) := Pool.put_self ..
  have hinv : ∀ ev ∈ evs, ∀ w, World.invoke w t ev.call = (w : World St DB) := by
    intro ev hev w
    cases hc : ev.call with
    | decompress src dst => exact absurd hc (hd ev hev src dst)
    | _ => rfl
  obtain ⟨c', hr, hw, ht, ho, htr⟩ := steps_of_exec hx hinv hc₁ rfl rfl rfl rfl
  refine ⟨c', .head hs hr, hw, ht, ?_, ?_⟩
  · intro t' ht'
    rw [ho t' ht']
    exact Pool.put_of_ne _ _ _ _ ht'
  · rw [htr, show c₁.trace = c.trace from List.append_nil _]

def keepAll : ServiceDeps := ⟨"db", "db", none⟩

def createRequest : Request := ⟨keepAll, .createBackup⟩

def restoreRequest : Request := ⟨keepAll, .restore (.id "b") "db"⟩

theorem createRequest_exec : ∃ h w, w.store "b" = some (dated 1, [1]) ∧ w.lock = none ∧
    w.folder "g" = none ∧ w.folder "k" = none ∧ w.used = ["f"] ∧ w.store "c" = none ∧
    Exec (Alone mapPorts 0) ([], someWorld) createRequest.body
      (created keepAll "f" 0 (dated 1) ++ [⟨.unlock, ()⟩]) (.ret (.backup (.ok (dated 1))))
      (h, w) :=
  ⟨_, _, rfl, rfl, rfl, rfl, rfl, rfl,
    alone_cons (.locked rfl) <|
    alone_cons (.tempFile rfl (by simp [someWorld])) <|
    alone_cons (.dump _ rfl) <|
    alone_cons (.now 0) <|
    alone_cons (.upload _ _ rfl (notBusy_ok _) ⟨rfl, rfl, rfl, rfl⟩) <|
    alone_cons .dropFile <|
    alone_cons .unlock <|
    .nil _ _⟩

def laterCopy : BackupInfo := ⟨"c", "c.pgdump", 2, none, none, .pgCustom, .preRestore⟩

theorem restoreRequest_exec {w : World MapStore Bytes} (hb : w.store "b" = some (dated 1, [1]))
    (hl : w.lock = none) (hg : w.folder "g" = none) (hk : w.folder "k" = none)
    (hu : w.used = ["f"]) (hc : w.store "c" = none) :
    ∃ h w', Exec (Alone mapPorts 1) ([], w) restoreRequest.body
      (prepared keepAll (.id "b") (dated 1) "g" "k" 0 laterCopy ++
        [⟨.restore "g", .ok ()⟩, ⟨.dropFile "g", ()⟩, ⟨.unlock, ()⟩])
      (.ret (.restored (.ok ⟨dated 1, laterCopy⟩))) (h, w') := by
  unfold restoreRequest Request.body restore
  simp only [keepAll, ne_eq, not_true_eq_false, if_false]
  exact ⟨_, _,
    alone_cons (.locked hl) <|
    alone_cons (.get _ (notBusy_ok _) ⟨⟨[1], hb⟩, rfl, rfl⟩) <|
    alone_cons (.tempFile hg (by simp [hu])) <|
    alone_cons (.download [1] _ ⟨⟨dated 1, hb⟩, rfl⟩) <|
    alone_cons (.tempFile (by simpa [World.write] using hk) (by simp [hu, World.write])) <|
    alone_cons (.dump _ rfl) <|
    alone_cons (.now 0) <|
    alone_cons (.upload _ _ rfl (notBusy_ok _) ⟨hc, rfl, rfl, rfl⟩) <|
    alone_cons .dropFile <|
    alone_cons (.restore [1] [1] rfl rfl) <|
    alone_cons .dropFile <|
    alone_cons .unlock <|
    .nil _ _⟩

/-- A backup, an edit of the database, and a restore of the backup. -/
theorem backup_is_snapshot_edited : ∃ (c c' : Service MapStore Bytes) (x y : Client MapStore Bytes),
    c.tasks 0 = some x ∧ x.rest = .ret (.backup (.ok (dated 1))) ∧ Service.Steps mapPorts c c' ∧
    c'.tasks 1 = some y ∧ y.rest = .ret (.restored (.ok ⟨dated 1, laterCopy⟩)) ∧
    ∃ en ∈ x.hist, ∃ en' ∈ y.hist, (∃ src, en'.event = ⟨.restore src, .ok ()⟩) ∧
      en'.post.db = en.pre.db := by
  obtain ⟨h, w, hb, hl, hg, hk, hu, hc, hx⟩ := createRequest_exec
  let c₀ : Service MapStore Bytes := ⟨someWorld, fun _ => none, []⟩
  have hc₀ : c₀.Initial := ⟨⟨fun _ => rfl, rfl⟩, rfl, fun _ => rfl⟩
  obtain ⟨c, hr, hw, ht, ho, htr⟩ := service_goes (c := c₀) hx rfl (by simp [created, copied])
  let w₁ : World MapStore Bytes := { c.world with db := [7] }
  let c₁ : Service MapStore Bytes := { c with world := w₁ }
  have hedit : Service.Step mapPorts c c₁ := .env (.edit [7])
  rw [← hw] at hb hl hg hk hu hc
  obtain ⟨h', w', hx'⟩ := restoreRequest_exec (w := w₁) hb hl hg hk hu hc
  obtain ⟨c', hr', hw', ht', ho', htr'⟩ :=
    service_goes (c := c₁) hx' (ho 1 (by simp)) (by simp [prepared, copied, resolved])
  have hnone : ∀ t, (t, .delete "b") ∉ c'.trace := by
    intro t hm
    rw [htr', htr] at hm
    simp [c₀, awaited, created, prepared, copied, resolved] at hm
  obtain ⟨en, hen, _, _, _, _, hsnap⟩ := backup_is_snapshot hc₀ hr ht rfl rfl
  obtain ⟨_, hrest⟩ := hsnap c' (.head hedit hr') hnone
  obtain ⟨_, en', hen', hev, hdb⟩ := hrest 1 _ _ _ _ _ (ho 1 (by simp)) ht' rfl rfl rfl
  exact ⟨c, c', _, _, ht, rfl, .head hedit hr', ht', rfl, en, hen, en', hen', hev, hdb⟩

end FastBackup

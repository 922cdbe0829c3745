import FastBackup.Server.Restore

namespace FastBackup
open Interaction
set_option autoImplicit true

variable {St DB : Type} {P : Ports St DB} {c₀ c c' : Service St DB}

theorem Handle.shrinks {w w' : World St DB} {e : Call} {r : e.Reply}
    (hh : Handle P t w e r w') (hp : e.prunes = true)
    (hl : P.storage.lookup w'.store id' = some y) : P.storage.lookup w.store id' = some y := by
  cases hh with
  | list _ _ hs => rwa [show _ = w.store from P.storage.read_only rfl hs] at hl
  | delete _ _ hs => exact P.storage.delete_shrinks hs hl
  | _ => cases hp

theorem Handle.names_listed {w w' : World St DB} {page : Page BackupInfo}
    (hh : Handle P t w (.list size token) (.ok page) w') (hi : i ∈ page.items) :
    P.storage.names w.store i := by
  cases hh with
  | list _ _ hs => exact P.storage.list_names hs i hi

theorem Handle.uploaded {w w' : World St DB} {info : BackupInfo}
    (hh : Handle P t w (.upload req) (.ok info) w') : ∃ content,
      w.folder req.path = some content ∧
      Adds P.storage.lookup req content info w.store w'.store := by
  cases hh with
  | upload content _ hf _ hs => exact ⟨content, hf, P.storage.upload_ok hs⟩

/-- While an operation with the guard only lists and deletes, the storage gets nothing new. -/
def Shrinks (P : Ports St DB) (h : Hist St DB) (w : World St DB) : Prop :=
  ∀ h₁ en h₂, h = h₁ ++ en :: h₂ → holding (h₁.map Entry.event) = true →
    (∀ en' ∈ en :: h₂, en'.event.call.prunes = true) →
    ∀ id y, P.storage.lookup w.store id = some y → P.storage.lookup en.pre.store id = some y

theorem Shrinks.step {r : e.Reply} (hs : Shrinks P h w) (hu : Undisturbed t h w w₁)
    (hh : Handle P t w₁ e r w₂) : Shrinks P (h ++ [⟨⟨e, r⟩, w₁, w₂⟩]) w₂ := by
  intro h₁ en h₂ hsplit hhold hprune id y hl
  rcases List.eq_nil_or_concat h₂ with rfl | ⟨h₃, en', rfl⟩
  · obtain ⟨_, he⟩ := List.append_inj' hsplit rfl
    rw [List.singleton_inj] at he
    subst he
    exact hh.shrinks (hprune _ (List.mem_cons_self ..)) hl
  · rw [List.concat_eq_append, ← List.cons_append, ← List.append_assoc] at hsplit
    obtain ⟨rfl, he⟩ := List.append_inj' hsplit rfl
    rw [List.singleton_inj] at he
    subst he
    have hp : ∀ en' ∈ en :: h₃, en'.event.call.prunes = true := by
      intro en' hm
      refine hprune en' ?_
      rw [List.concat_eq_append, ← List.cons_append]
      exact List.mem_append_left _ hm
    refine hs h₁ en h₃ rfl hhold hp id y ?_
    have hall : holding ((h₁ ++ en :: h₃).map Entry.event) = true := by
      rw [List.map_append, holding_append, hhold]
      intro ev hm
      obtain ⟨en', hm', rfl⟩ := List.mem_map.1 hm
      exact Call.prunes_awaits (hp en' hm')
    rw [← (hu hall).1]
    exact hh.shrinks (hprune ⟨⟨e, r⟩, w₁, w₂⟩ (by simp)) hl

theorem exec_shrinks {p q : Svc α}
    (hx : Exec (Under (machine P) t (Undisturbed t)) ([], w₀) p evs q (h, w)) :
    Shrinks P h w := by
  refine Safe.invariant (Shrinks P) (Meets.top p []) ?_ ?_ hx
  · intro h w e r w₁ w₂ hs _ hu hh
    exact hs.step hu hh
  · intro h₁ en h₂ he
    simp at he

/-- A `delete` of retention is for a prunable backup that a page showed which the operation read
under the lock. Since then it has only pruned, and nobody else has changed the storage. -/
theorem delete_listed {x : Client St DB} {id : String} {k : Except Error Unit → Svc Outcome}
    (hc : c₀.Initial) (hr : Service.Steps P c₀ c) (hx : c.tasks t = some x)
    (ha : x.phase.active = true) (hk : x.rest = .call (.delete id) k) :
    ∃ b token page w₁ w₂ h₁ h₂ w₀ w, b.id = id ∧ prunable b = true ∧ b ∈ page.items ∧
      Handle P t w₁ (.list maxPageSize token) (.ok page) w₂ ∧
      x.hist = h₁ ++ ⟨⟨.list maxPageSize token, .ok page⟩, w₁, w₂⟩ :: h₂ ∧
      holding (h₁.map Entry.event) = true ∧
      (∀ en ∈ ⟨⟨.list maxPageSize token, .ok page⟩, w₁, w₂⟩ :: h₂,
        en.event.call.prunes = true) ∧
      Exec (Under (machine P) t (Undisturbed t)) ([], w₀) x.op.body x.events x.rest (x.hist, w) ∧
      c.world.store = w.store := by
  have hrun := task_runs hc.pool hr t x hx
  rw [hk] at hrun
  have hhold : holding x.events = true := (disc_body x.op).pre_of_runs hrun
  have hcalls := (shape_body x.op).pre_of_runs hrun
  obtain ⟨w₀, w, hex, hrel⟩ := (guard_rely hc).exec hc.pool hr t x hx
  have hstore := (hrel ha hhold).1
  obtain ⟨⟨deps, op⟩, hist, rest, phase⟩ := x
  cases op with
  | list | resolve | download | downloadBackup =>
    rw [reader_not_holding rfl hrun] at hhold
    cases hhold
  | restore => cases hcalls
  | createBackup =>
    obtain ⟨file, time, info, keep, pages, done, b, rest', rs, _, _, _, hs, _, rfl, hev⟩ := hcalls
    have hcand : b ∈ retentionCandidates (pages.flatMap Page.items) keep := by
      rw [hs]
      exact List.mem_append_right _ (List.mem_cons_self ..)
    obtain ⟨hb, hp⟩ := mem_of_candidate hcand
    obtain ⟨page, hpage, hitem⟩ := List.mem_flatMap.1 hb
    obtain ⟨token, before, after, hcut, hafter⟩ := pageCalls_split none hpage
    rw [hcut, ← List.append_assoc, List.append_assoc _ (_ :: _)] at hev
    obtain ⟨h₁, h₂, rfl, hev₁, hev₂⟩ := List.map_eq_append_iff.1 hev
    obtain ⟨⟨ev, w₁, w₂⟩, h₃, rfl, rfl, hev₃⟩ := List.map_eq_cons_iff.1 hev₂
    obtain ⟨h', hh', hentry⟩ := exec_entry hex
    obtain ⟨_, _, _, _, hlist⟩ := hentry h₁ _ h₃ hh'.symm
    refine ⟨b, token, page, w₁, w₂, h₁, h₃, w₀, w, rfl, hp, hitem, hlist, rfl, ?_, ?_, hex, hstore⟩
    · rw [hev₁, holding_append]
      · rfl
      · intro ev hm
        refine Call.prunes_awaits (pageCalls_prunes none pages ev ?_)
        rw [hcut]
        exact List.mem_append_left _ hm
    · intro en hm
      rcases List.mem_cons.1 hm with rfl | hm
      · rfl
      · have hev := List.mem_map_of_mem (f := Entry.event) hm
        rw [hev₃] at hev
        rcases List.mem_append.1 hev with hev | hev
        · exact hafter _ hev
        · exact deleteCalls_prunes _ hev

/-- Everything the storage has got under the id that retention deletes is the backup it listed. -/
theorem delete_agrees {x : Client St DB} {id : String} {k : Except Error Unit → Svc Outcome}
    (hc : c₀.Initial) (hr : Service.Steps P c₀ c) (hx : c.tasks t = some x)
    (ha : x.phase.active = true) (hk : x.rest = .call (.delete id) k) :
    P.storage.proper id ∧ ∃ b, b.id = id ∧ prunable b = true ∧
      ∀ y, P.storage.lookup c.world.store id = some y → y.1 = b := by
  obtain ⟨b, token, page, w₁, w₂, h₁, h₂, w₀, w, rfl, hp, hitem, hlist, hhist, hheld, hprune, hex,
    hstore⟩ := delete_listed hc hr hx ha hk
  obtain ⟨content, hb⟩ := P.storage.names_lookup (Handle.names_listed hlist hitem)
  refine ⟨P.storage.lookup_proper hb, b, rfl, hp, ?_⟩
  intro y hl
  rw [hstore] at hl
  have hy := exec_shrinks hex h₁ _ h₂ hhist hheld hprune _ y hl
  exact (congrArg Prod.fst (Option.some.inj (hb.symm.trans hy))).symm

/-- Once stored, a pre-restore backup stays. -/
theorem step_keeps_preRestore (hc : c₀.Initial) (hr : Service.Steps P c₀ c)
    (hs : Service.Step P c c') (hk : info.kind = .preRestore)
    (hl : P.storage.lookup c.world.store info.id = some (info, content)) :
    P.storage.lookup c'.world.store info.id = some (info, content) := by
  cases hs with
  | spawn => exact hl
  | env he =>
    cases he with
    | edit => exact hl
    | job t hj => rwa [hj.frame.2.1]
  | move t hx hm =>
    rcases hm.world_cases with hw | ⟨e, r, k, ha, hq, hh, _⟩ | ⟨e, k, _, _, _, hw⟩ | ⟨_, hw⟩
    · rw [Pool.put, hw]
      exact hl
    · apply hh.lookup_kept _ _ hl
      · rintro rfl
        obtain ⟨_, b, hid, hp, hb⟩ := delete_agrees hc hr hx ha hq
        rw [← hb _ hl, prunable, hk] at hp
        simp at hp
      · rintro id' rfl
        exact (delete_agrees hc hr hx ha hq).1
    · rw [Pool.put, hw]
      cases e <;> exact hl
    · rw [Pool.put, hw]
      exact hl

/-- What an operation uploaded as a pre-restore backup is stored, with the bytes of the file. -/
theorem copied_of_steps {x : Client St DB} {en : Entry (World St DB) Call Call.Reply}
    (hc : c₀.Initial) (hr : Service.Steps P c₀ c) (hx : c.tasks t = some x) (hen : en ∈ x.hist)
    (he : en.event = ⟨.upload req, .ok info⟩) (hk : req.kind = .preRestore) :
    info.kind = .preRestore ∧ ∃ content, en.pre.folder req.path = some content ∧
      P.storage.lookup c.world.store info.id = some (info, content) := by
  refine entries_invariant (fun c _ en => ∀ req info, en.event = ⟨.upload req, .ok info⟩ →
    req.kind = .preRestore → info.kind = .preRestore ∧
      ∃ content, en.pre.folder req.path = some content ∧
        P.storage.lookup c.world.store info.id = some (info, content))
    ?_ ?_ hc.pool hr t x hx en hen req info he hk
  · intro c₁ c₂ t en hr hs hi req info he hk
    obtain ⟨hik, content, hf, hl⟩ := hi req info he hk
    exact ⟨hik, content, hf, step_keeps_preRestore hc hr hs hik hl⟩
  · intro c₁ c₂ t x e r k hr hs hx ha _ hq hh req info he hk
    cases he
    obtain ⟨content, hf, hadds⟩ := Handle.uploaded hh
    exact ⟨hadds.kind.trans hk, content, hf, hadds.lookup_new⟩

/-- What an operation that has invoked the restorer did before. -/
theorem invoked_prepared {x : Client St DB} (hc : c₀.Initial) (hr : Service.Steps P c₀ c)
    (hx : c.tasks t = some x) (hi : (t, .restore src) ∈ c.trace) :
    ∃ deps target confirm restored file time preRestore content dump h w,
      x.op = ⟨deps, .restore target confirm⟩ ∧ h <+: x.hist ∧
      Prepared P deps target restored src file time preRestore content dump h w := by
  obtain ⟨w₀, h, w, k, hpre, hex⟩ := (guard_rely hc).invoked hc.pool hr hx hi
  have hcalls := (shape_body x.op).pre_of_runs hex.runs
  have hhold : holding (h.map Entry.event) = true := ((disc_body x.op).pre_of_runs hex.runs).1
  obtain ⟨⟨deps, op⟩, hist, rest, phase⟩ := x
  cases op with
  | list | resolve | download | downloadBackup =>
    rw [reader_not_holding rfl hex.runs] at hhold
    cases hhold
  | createBackup => cases hcalls
  | restore target confirm =>
    obtain ⟨_, restored, file, time, preRestore, _, hev⟩ := hcalls
    rw [hev] at hex
    obtain ⟨content, dump, hp⟩ := prepared_worlds (fun _ _ _ hu => hu) hex
    exact ⟨deps, target, confirm, restored, file, time, preRestore, content, dump, h, w, rfl,
      hpre, hp⟩

/-- A `restore` of the backup `info` by id that succeeds, while `info` stays stored with `dump`,
sets the database to what `dump` was taken from. -/
theorem restore_of_copy {y : Client St DB} (hc : c₀.Initial) (hr : Service.Steps P c₀ c)
    (hy : c.tasks t = some y) (hop : y.op = ⟨deps, .restore (.id info.id) confirm⟩)
    (hk : y.rest = .ret (.restored (.ok out))) (hd : P.dumps d dump)
    (hl : ∀ en ∈ y.hist, P.storage.lookup en.pre.store info.id = some (info, dump)) :
    ∃ en ∈ y.hist, (∃ src, en.event = ⟨.restore src, .ok ()⟩) ∧ en.post.db = d := by
  obtain ⟨w₀, w, hex, _⟩ := (guard_rely hc).exec hc.pool hr t y hy
  rw [hk, hop] at hex
  obtain ⟨_, _, src, file, time, hev⟩ := (shape_body _).post_of_runs hex.runs
  have hm : (⟨.restore src, .ok ()⟩ : Ev) ∈ y.hist.map Entry.event := by
    rw [show y.hist.map Entry.event = _ from hev]
    simp
  obtain ⟨en, hen, he⟩ := List.mem_map.1 hm
  obtain ⟨h₁, h₂, hh⟩ := List.append_of_mem hen
  refine ⟨en, hen, ⟨src, he⟩, ?_⟩
  rw [hh] at hex
  obtain ⟨_, _, _, _, content, _, _, hp, hload⟩ :=
    restored_entry (fun _ _ _ hu => hu) (shape_body ⟨deps, .restore (.id info.id) confirm⟩) hex he
  obtain ⟨first, rest, rfl, _, hlook, _⟩ := hp.locked
  have hsame := hl first (by rw [hh]; simp)
  rw [← hp.named _ rfl (P.storage.lookup_proper hsame), hlook] at hsame
  cases hsame
  rw [P.load_dump hd] at hload
  exact (Option.some.inj hload).symm

/-- Undo is always available: once an operation `t` has invoked the restorer, the storage holds
the dump it took before as a pre-restore backup `info`, in every later state of the run, and a
later `restore` of `info` by id that returns `Ok` sets the database to the value dumped. -/
theorem undo_available {x : Client St DB} (hc : c₀.Initial) (hr : Service.Steps P c₀ c)
    (hx : c.tasks t = some x) (hi : (t, .restore src) ∈ c.trace) :
    ∃ info dump file, ∃ dumped ∈ x.hist, ∃ uploaded ∈ x.hist, ∃ req,
      dumped.event = ⟨.dump file, .ok ()⟩ ∧ P.dumps dumped.pre.db dump ∧
      dumped.post.folder file = some dump ∧
      uploaded.event = ⟨.upload req, .ok info⟩ ∧ req.path = file ∧ req.kind = .preRestore ∧
      info.kind = .preRestore ∧
      ∀ c', Service.Steps P c c' →
        P.storage.lookup c'.world.store info.id = some (info, dump) ∧
        ∀ t' y deps confirm out, c.tasks t' = none → c'.tasks t' = some y →
          y.op = ⟨deps, .restore (.id info.id) confirm⟩ →
          y.rest = .ret (.restored (.ok out)) →
          ∃ en ∈ y.hist, (∃ src, en.event = ⟨.restore src, .ok ()⟩) ∧
            en.post.db = dumped.pre.db := by
  obtain ⟨deps, target, confirm, restored, file, time, preRestore, content, dump, h, w, _, hpre,
    hp⟩ := invoked_prepared hc hr hx hi
  obtain ⟨dumped, hdm, hde, hdd, hdf⟩ := hp.dumped
  obtain ⟨uploaded, hum, hue, huf⟩ := hp.uploaded
  obtain ⟨hkind, content', hf, hl⟩ :=
    copied_of_steps hc hr hx (hpre.subset hum) hue rfl
  have hcontent : content' = dump := Option.some.inj (hf.symm.trans huf)
  rw [hcontent] at hl
  have hkept : ∀ c', Service.Steps P c c' →
      P.storage.lookup c'.world.store preRestore.id = some (preRestore, dump) := by
    intro c' hr'
    induction hr' with
    | refl => exact hl
    | tail hr' hs ih => exact step_keeps_preRestore hc (hr.trans hr') hs hkind ih
  refine ⟨preRestore, dump, file, dumped, hpre.subset hdm, uploaded, hpre.subset hum, _, hde, hdd,
    hdf, hue, rfl, rfl, hkind, ?_⟩
  intro c' hr'
  refine ⟨hkept c' hr', ?_⟩
  intro t' y deps confirm out hn hy hop hk
  exact restore_of_copy hc (hr.trans hr') hy hop hk hdd
    (entries_since (fun w => P.storage.lookup w.store preRestore.id = some (preRestore, dump))
      hkept hr' hn hy)

theorem someRequest_exec : ∃ h w k, Exec (Alone mapPorts 0) ([], someWorld) someRequest.body
    (prepared someRequest.deps (.id "a") someBackup "f" "g" 0 someCopy)
    (.call (.restore "f") k) (h, w) := by
  obtain ⟨h, w, k, hx, _⟩ := someRestore_exec
  exact ⟨h, w, _, hx.bind _⟩

theorem undo_available_someRequest : ∃ c : Service MapStore Bytes, ∃ info dump,
    (0, .restore "f") ∈ c.trace ∧ info.kind = .preRestore ∧
    mapPorts.storage.lookup c.world.store info.id = some (info, dump) := by
  obtain ⟨h, w, k, hx⟩ := someRequest_exec
  obtain ⟨c₀, c, hc, _, hr, _, hi, ht, _⟩ := service_of_exec hx rfl (fun _ => rfl) rfl
    (by simp [prepared, copied, resolved])
  obtain ⟨info, dump, _, _, _, _, _, _, _, _, _, _, _, _, hk, hl⟩ := undo_available hc hr ht hi
  exact ⟨c, info, dump, hi, hk, (hl c .refl).1⟩

end FastBackup

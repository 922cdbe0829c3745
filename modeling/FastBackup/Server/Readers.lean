import FastBackup.Interaction.Hide
import FastBackup.Server.Serial

namespace FastBackup
open Interaction
set_option autoImplicit true

variable {St DB : Type} {P : Ports St DB} {c₀ c c' : Service St DB} {v w w' : World St DB}
  {e : Call} {r : e.Reply}

/-- A call touches a file of its operation, or makes one. -/
theorem touched_cases (hd : Disciplined h e) (ht : e.touched r = some file) :
    file ∈ owned h ∨ ∃ suffix, (⟨e, r⟩ : Ev) = ⟨.tempFile suffix, .ok file⟩ := by
  cases e with
  | tempFile suffix =>
    cases r with
    | ok made =>
      cases ht
      exact .inr ⟨suffix, rfl⟩
    | error e => cases ht
  | dropFile | download =>
    cases ht
    exact .inl hd
  | dump dst =>
    cases ht
    exact .inl hd.2
  | _ => cases ht

/-- A call of an operation that does not write. -/
theorem Handle.reads (hh : Handle P t w e r w') (hd : Disciplined h e) (hn : holding h = false)
    (hn' : holding (h ++ [⟨e, r⟩]) = false) :
    w'.db = w.db ∧ w'.store = w.store ∧ w'.lock = w.lock := by
  have hguard : ∀ {p : Prop}, holding h = true ∧ p → False := by
    rintro p ⟨hh, _⟩
    rw [hn] at hh
    cases hh
  refine ⟨hh.db_eq ?_, hh.store_eq ?_ ?_, ?_⟩
  · rintro src he
    cases he
    exact hguard hd
  · rintro req rfl
    exact hguard hd
  · rintro id rfl
    exact hguard ⟨hd, trivial⟩
  · cases hh with
    | locked =>
      rw [holding_snoc] at hn'
      cases hn'
    | unlock => exact (hguard ⟨hd, trivial⟩).elim
    | _ => rfl

/-- A reply has done the same to `v` as to `w`, apart from files of other operations. -/
structure Followed (e : Call) (r : e.Reply) (v w : World St DB) : Prop where
  db : v.db = w.db
  store : v.store = w.store
  lock : v.lock = w.lock
  used : ∀ file ∈ v.used, file ∈ w.used
  touched : ∀ file, e.touched r = some file → v.folder file = w.folder file

theorem Followed.quiet (hdb : v.db = w.db) (hstore : v.store = w.store) (hlock : v.lock = w.lock)
    (hused : ∀ file ∈ v.used, file ∈ w.used) (ht : e.touched r = none) : Followed e r v w := by
  refine ⟨hdb, hstore, hlock, hused, fun file hf => ?_⟩
  rw [ht] at hf
  cases hf

theorem Followed.wrote (hdb : v.db = w.db) (hstore : v.store = w.store) (hlock : v.lock = w.lock)
    (hused : ∀ file ∈ v.used, file ∈ w.used) (ht : e.touched r = some dst)
    (hf : v.folder dst = w.folder dst) : Followed e r v w := by
  refine ⟨hdb, hstore, hlock, hused, fun file hfile => ?_⟩
  rw [ht] at hfile
  cases hfile
  exact hf

/-- The same reply in a world with the same database, storage, lock and files of the operation. -/
theorem Handle.follow (hh : Handle P t v e r v') (hd : Disciplined h e)
    (he : ∀ src dst, e ≠ .decompress src dst) (hdb : w.db = v.db) (hstore : w.store = v.store)
    (hlock : w.lock = v.lock) (hused : ∀ file ∈ w.used, file ∈ v.used)
    (hfree : ∀ file, file ∉ v.used → w.folder file = v.folder file)
    (hown : ∀ file ∈ owned h, w.folder file = v.folder file) :
    ∃ w', Handle P t w e r w' ∧ Followed e r w' v' := by
  obtain ⟨db, store, lock, folder, used, jobs⟩ := w
  subst hdb hstore hlock
  have hself (u u' : World St DB) (file : Path) (content : Option Bytes) :
      (u.write file content).folder file = (u'.write file content).folder file := by
    rw [World.write_self, World.write_self]
  cases hh with
  | locked hl => exact ⟨_, .locked hl, .quiet rfl rfl rfl hused rfl⟩
  | busy hl => exact ⟨_, .busy hl, .quiet rfl rfl rfl hused rfl⟩
  | unlock => exact ⟨_, .unlock, .quiet rfl rfl rfl hused rfl⟩
  | tempFile hf hu =>
    refine ⟨_, .tempFile ((hfree _ hu).trans hf) fun hm => hu (hused _ hm),
      .wrote rfl rfl rfl ?_ rfl (hself ..)⟩
    intro file hm
    rcases List.mem_cons.1 hm with rfl | hm
    · exact List.mem_cons_self ..
    · exact List.mem_cons_of_mem _ (hused file hm)
  | tempFileError => exact ⟨_, .tempFileError, .quiet rfl rfl rfl hused rfl⟩
  | dropFile => exact ⟨_, .dropFile, .wrote rfl rfl rfl hused rfl (hself ..)⟩
  | now time => exact ⟨_, .now time, .quiet rfl rfl rfl hused rfl⟩
  | dump b hdump => exact ⟨_, .dump b hdump, .wrote rfl rfl rfl hused rfl (hself ..)⟩
  | dumpError hb b => exact ⟨_, .dumpError hb b, .wrote rfl rfl rfl hused rfl (hself ..)⟩
  | upload content s' hf hr hs =>
    exact ⟨_, .upload content s' ((hown _ hd.2).trans hf) hr hs, .quiet rfl rfl rfl hused rfl⟩
  | uploadUnread hf hb =>
    exact ⟨_, .uploadUnread ((hown _ hd.2).trans hf) hb, .quiet rfl rfl rfl hused rfl⟩
  | list s' hr hs => exact ⟨_, .list s' hr hs, .quiet rfl rfl rfl hused rfl⟩
  | latest s' hr hs => exact ⟨_, .latest s' hr hs, .quiet rfl rfl rfl hused rfl⟩
  | latestAmong hl hr hs => exact ⟨_, .latestAmong hl hr hs, .quiet rfl rfl rfl hused rfl⟩
  | get s' hr hs => exact ⟨_, .get s' hr hs, .quiet rfl rfl rfl hused rfl⟩
  | download b s' hs => exact ⟨_, .download b s' hs, .wrote rfl rfl rfl hused rfl (hself ..)⟩
  | downloadError hb b s' hs =>
    exact ⟨_, .downloadError hb b s' hs, .wrote rfl rfl rfl hused rfl (hself ..)⟩
  | delete s' hr hs => exact ⟨_, .delete s' hr hs, .quiet rfl rfl rfl hused rfl⟩
  | restore b d hf hload =>
    exact ⟨_, .restore b d ((hown _ hd.2).trans hf) hload, .quiet rfl rfl rfl hused rfl⟩
  | restoreError hb => exact ⟨_, .restoreError hb, .quiet rfl rfl rfl hused rfl⟩
  | decompress => exact absurd rfl (he _ _)
  | openFile hf =>
    exact ⟨_, .openFile ((hown _ hd).trans hf), .quiet rfl rfl rfl hused rfl⟩
  | openFileError => exact ⟨_, .openFileError, .quiet rfl rfl rfl hused rfl⟩
  | read hn => exact ⟨_, .read hn, .quiet rfl rfl rfl hused rfl⟩
  | readError => exact ⟨_, .readError, .quiet rfl rfl rfl hused rfl⟩
  | send received => exact ⟨_, .send received, .quiet rfl rfl rfl hused rfl⟩

/-- `w` is the world that the operations that write would have made of it without the others. -/
structure Unseen (c : Service St DB) (w : World St DB) : Prop where
  db : w.db = c.world.db
  store : w.store = c.world.store
  lock : w.lock = c.world.lock
  used : ∀ file ∈ w.used, file ∈ c.world.used
  free : ∀ file, file ∉ c.world.used → w.folder file = c.world.folder file
  files : ∀ t, c.writer t = true → ∀ file ∈ c.files t, w.folder file = c.world.folder file
  jobs : ∀ t, c.writer t = true → c.world.jobs t = none

/-- A step of `t` that touches the files of `T` only. -/
theorem Unseen.put {x : Client St DB} (hu : Unseen c w) (T : Path → Prop)
    (hdb : w'.db = v.db) (hstore : w'.store = v.store) (hlock : w'.lock = v.lock)
    (hused : ∀ file ∈ w'.used, file ∈ v.used) (hgrow : ∀ file ∈ c.world.used, file ∈ v.used)
    (hw : ∀ file, ¬ T file → w'.folder file = w.folder file)
    (hv : ∀ file, ¬ T file → v.folder file = c.world.folder file)
    (hT : ∀ file, T file → file ∈ v.used ∧ ∀ t', t' ≠ t → file ∉ c.files t')
    (hjobs : ∀ t', t' ≠ t → v.jobs t' = c.world.jobs t')
    (hmine : x.op.op.writing = true → v.jobs t = none ∧
      ∀ file ∈ Service.files (c.put t x v tr) t, w'.folder file = v.folder file) :
    Unseen (c.put t x v tr) w' where
  db := hdb
  store := hstore
  lock := hlock
  used := hused
  free file hf := by
    have hn : ¬ T file := fun ht => hf (hT file ht).1
    rw [hw file hn, hu.free file fun hm => hf (hgrow file hm)]
    exact (hv file hn).symm
  files t' hwr file hm := by
    by_cases ht : t' = t
    · subst ht
      rw [Service.writer, Pool.put_self] at hwr
      exact (hmine hwr).2 file hm
    · rw [(Service.put_other c x ht).2.2] at hm
      have hn : ¬ T file := fun hin => (hT file hin).2 t' ht hm
      rw [Service.writer, Pool.put_of_ne _ _ _ _ ht] at hwr
      rw [hw file hn, hu.files t' hwr file hm]
      exact (hv file hn).symm
  jobs t' hwr := by
    by_cases ht : t' = t
    · subst ht
      rw [Service.writer, Pool.put_self] at hwr
      exact (hmine hwr).1
    · rw [Service.writer, Pool.put_of_ne _ _ _ _ ht] at hwr
      exact (hjobs t' ht).trans (hu.jobs t' hwr)

section Moves
variable {x : Client St DB}

theorem Service.writer_eq (hx : c.tasks t = some x) : c.writer t = x.op.op.writing := by
  rw [Service.writer, hx]

/-- A reply to `t`, of which `w'` shows nothing or the same. -/
theorem Unseen.reply (hu : Unseen c w) (hs : c.Sound) (hx : c.tasks t = some x)
    (ha : x.phase.active = true) (hp : phase.active = true) (hd : Disciplined x.events e)
    (hh : Handle P t c.world e r v) (hdb : w'.db = v.db) (hstore : w'.store = v.store)
    (hlock : w'.lock = v.lock) (hused : ∀ file ∈ w'.used, file ∈ v.used)
    (hw : ∀ file, e.touched r ≠ some file → w'.folder file = w.folder file)
    (hmine : x.op.op.writing = true → ∀ file, e.touched r = some file →
      w'.folder file = v.folder file) :
    Unseen (c.put t (x.reply e r c.world v rest phase) v tr) w' := by
  have hfiles := Service.files_active hx ha
  refine hu.put (fun file => e.touched r = some file) hdb hstore hlock hused
    (fun file hf => hh.used_mono hf) hw (fun file hf => hh.folder_eq hf) ?_
    (fun t' _ => congrFun hh.jobs_eq t') ?_
  · intro file ht
    rcases touched_cases hd ht with hf | ⟨suffix, he⟩
    · rw [← hfiles] at hf
      refine ⟨hh.used_mono (hs.used t file hf), fun t' ht' hf' => ?_⟩
      exact ht' (hs.disjoint t' t file hf' hf)
    · cases he
      obtain ⟨hfresh, hused⟩ := hh.fresh
      rw [hused]
      exact ⟨List.mem_cons_self .., fun t' _ hf' => hfresh (hs.used t' file hf')⟩
  · intro hwr
    have hwriter : c.writer t = true := (Service.writer_eq hx).trans hwr
    refine ⟨(congrFun hh.jobs_eq t).trans (hu.jobs t hwriter), fun file hf => ?_⟩
    by_cases ht : e.touched r = some file
    · exact hmine hwr file ht
    rw [Service.files_active (Pool.put_self ..) hp, Task.events_reply] at hf
    rcases owned_snoc_mem hf with hf | ⟨suffix, he⟩
    · rw [hw file ht, hu.files t hwriter file (hfiles ▸ hf), hh.folder_eq ht]
    · cases he
      exact absurd rfl ht

/-- The destructors of `t` run, of which `w'` shows nothing or the same. -/
theorem Unseen.abandon (hu : Unseen c w) (hs : c.Sound) (hx : c.tasks t = some x)
    (hlive : ¬ (x.phase = .dropped ∨ x.phase = .released))
    (hp : phase = .dropped ∨ phase = .released) (hdb : w'.db = w.db) (hstore : w'.store = w.store)
    (hlock : w'.lock = (c.world.abandon t x.events).lock) (hused : w'.used = w.used)
    (hw : ∀ file, file ∉ owned x.events → w'.folder file = w.folder file) :
    Unseen (c.put t { x with phase := phase } (c.world.abandon t x.events) tr) w' := by
  have hfiles := Service.files_live hx hlive
  refine hu.put (fun file => file ∈ owned x.events) (hdb.trans hu.db) (hstore.trans hu.store) hlock
    ?_ (fun file hf => hf) hw (fun file hf => if_neg hf) ?_ (fun _ _ => rfl) ?_
  · rw [hused]
    exact hu.used
  · intro file hf
    rw [← hfiles] at hf
    exact ⟨hs.used t file hf, fun t' ht hf' => ht (hs.disjoint t' t file hf' hf)⟩
  · intro hwr
    refine ⟨hu.jobs t ((Service.writer_eq hx).trans hwr), fun file hf => ?_⟩
    rw [Service.files_gone (Pool.put_self ..) hp] at hf
    cases hf

theorem Unseen.abandon_both (hu : Unseen c w) (hs : c.Sound) (hx : c.tasks t = some x)
    (hlive : ¬ (x.phase = .dropped ∨ x.phase = .released))
    (hp : phase = .dropped ∨ phase = .released) :
    Unseen (c.put t { x with phase := phase } (c.world.abandon t x.events) tr)
      (w.abandon t x.events) := by
  have hlock : (w.abandon t x.events).lock = (c.world.abandon t x.events).lock :=
    congrArg (fun l => if l = some t then none else l) hu.lock
  exact hu.abandon hs hx hlive hp rfl rfl hlock rfl fun file hf => if_neg hf

/-- A change of the phase of `t`, perhaps with a new blocking task. -/
theorem Unseen.moved (phase : Phase) (js : Nat → Option Job) (hu : Unseen c w)
    (hx : c.tasks t = some x) (hlive : ¬ (x.phase = .dropped ∨ x.phase = .released))
    (hp : ¬ (phase = .dropped ∨ phase = .released)) (hj : ∀ t', t' ≠ t → js t' = c.world.jobs t')
    (hmine : x.op.op.writing = true → js t = c.world.jobs t) :
    Unseen (c.put t { x with phase := phase } { c.world with jobs := js } tr) w := by
  refine hu.put (fun _ => False) hu.db hu.store hu.lock hu.used (fun _ hf => hf) (fun _ _ => rfl)
    (fun _ _ => rfl) (fun _ hf => hf.elim) hj ?_
  intro hwr
  have hwriter : c.writer t = true := (Service.writer_eq hx).trans hwr
  refine ⟨(hmine hwr).trans (hu.jobs t hwriter), fun file hf => ?_⟩
  rw [Service.files_live (Pool.put_self ..) hp] at hf
  have hf : file ∈ owned x.events := hf
  rw [← Service.files_live hx hlive] at hf
  exact hu.files t hwriter file hf

end Moves

theorem World.invoke_eq (w : World St DB) (t : Nat) (e : Call) :
    w.invoke t e = { w with jobs := (w.invoke t e).jobs } := by
  cases e <;> rfl

theorem World.invoke_other (w : World St DB) (e : Call) (ht : t' ≠ t) :
    (w.invoke t e).jobs t' = w.jobs t' := by
  cases e with
  | decompress => exact World.setJob_of_ne w _ ht
  | _ => rfl

theorem World.invoke_same (w : World St DB) (t : Nat) (he : ∀ src dst, e ≠ .decompress src dst) :
    w.invoke t e = w := by
  cases e with
  | decompress => exact absurd rfl (he _ _)
  | _ => rfl

/-- Decompression needs the lock to be free, and operations that write have it. -/
theorem writer_decompress {q : Request} {k : e.Reply → Svc Outcome} (hw : q.op.writing = true)
    (hr : Runs q.body h (.call e k)) : ∀ src dst, e ≠ .decompress src dst := by
  rintro src dst rfl
  have hd := (disc_body q).pre_of_runs hr
  have hh := writer_holds hw hr rfl
  rw [hd.1] at hh
  cases hh

theorem Service.Initial.unseen (hc : c.Initial) : Unseen c c.world := by
  refine ⟨rfl, rfl, rfl, fun _ hf => hf, fun _ _ => rfl, fun _ _ _ _ => rfl, fun t _ => hc.jobs t⟩

/-- A move of an operation that does not write. -/
theorem Unseen.hidden {x : Client St DB} (hc : c₀.Initial) (hr : Service.Steps P c₀ c)
    (hu : Unseen c w) (hx : c.tasks t = some x) (hk : x.op.op.writing = false)
    (hm : Move (machine P) t c.world x v x' tr) : Unseen (c.put t x' v tr) w := by
  have hs := sound_of_steps hc hr
  have hrun := task_runs hc.pool hr t x hx
  have hnot : x.op.op.writing ≠ true := by
    rw [hk]
    exact Bool.false_ne_true
  have hreply : ∀ {e : Call} {r : e.Reply} {k : e.Reply → Svc Outcome} {v : World St DB} phase tr,
      x.phase.active = true → x.rest = .call e k → Handle P t c.world e r v →
      phase.active = true → Unseen (c.put t (x.reply e r c.world v (k r) phase) v tr) w := by
    intro e r k v phase tr ha hrest hh hp
    rw [hrest] at hrun
    have hd : Disciplined x.events e := (disc_body x.op).pre_of_runs hrun
    have hn := reader_not_holding hk hrun
    obtain ⟨hdb, hstore, hlock⟩ := hh.reads hd hn (reader_not_holding hk (hrun.snoc r))
    apply hu.reply hs hx ha hp hd hh
    · exact hu.db.trans hdb.symm
    · exact hu.store.trans hstore.symm
    · exact hu.lock.trans hlock.symm
    · exact fun file hf => hh.used_mono (hu.used file hf)
    · exact fun _ _ => rfl
    · exact fun hwr => absurd hwr hnot
  have habandon : ∀ phase, ¬ (x.phase = .dropped ∨ x.phase = .released) →
      phase = .dropped ∨ phase = .released →
      Unseen (c.put t { x with phase := phase } (c.world.abandon t x.events) []) w := by
    intro phase hlive hp
    have hfree : c.world.lock ≠ some t := by
      intro hl
      obtain ⟨y, hy, _, hwr⟩ := lock_writer hc hr hl
      rw [hx, Option.some.injEq] at hy
      rw [← hy] at hwr
      exact hnot hwr
    exact hu.abandon hs hx hlive hp rfl rfl (hu.lock.trans (if_neg hfree).symm) rfl fun _ _ => rfl
  cases hm with
  | now hp hrest _ hh => exact hreply _ _ (by rw [hp]; rfl) hrest hh rfl
  | effect hp hrest hh => exact hreply _ _ (by rw [hp]; rfl) hrest hh rfl
  | @invoke e _ _ _ hp _ _ =>
    have hi : Unseen (c.put t { x with phase := .waiting } { c.world with
        jobs := (c.world.invoke t e).jobs } [(t, e)]) w :=
      hu.moved .waiting _ hx (by simp [hp]) (by simp) (fun t' ht => World.invoke_other _ _ ht)
        fun hwr => absurd hwr hnot
    rwa [← World.invoke_eq] at hi
  | resume hp => exact hu.moved _ _ hx (by simp [hp]) (by simp) (fun _ _ => rfl) fun _ => rfl
  | finish hp => exact hu.moved _ _ hx (by simp [hp]) (by simp) (fun _ _ => rfl) fun _ => rfl
  | drop hp => exact habandon _ (by rcases hp with hp | hp <;> simp [hp]) (.inl rfl)
  | release hp => exact habandon _ (by simp [hp]) (.inr rfl)

theorem Service.Initial.forgets (hc : c₀.Initial) :
    Forgets (machine P) Request.body (fun q => q.op.writing) c₀ Unseen where
  spawn {c w t} q hr hu hn := by
    have hempty : Service.events c t = [] := by rw [Service.events, hn]
    refine hu.put (fun _ => False) hu.db hu.store hu.lock hu.used (fun _ hf => hf) (fun _ _ => rfl)
      (fun _ _ => rfl) (fun _ hf => hf.elim) (fun _ _ => rfl) ?_
    intro _
    constructor
    · cases hj : c.world.jobs t with
      | none => rfl
      | some job => exact absurd hempty ((sound_of_steps hc hr).job t job hj).1
    · intro file hf
      rw [Service.files_active (Pool.put_self ..) rfl] at hf
      cases hf
  hidden hr hu hx hk hm := hu.hidden hc hr hx hk hm
  reply {e c w t x r v k} phase hr hu hx hk ha hrest hh hp := by
    have hrun := task_runs hc.pool hr t x hx
    rw [hrest] at hrun
    have hd : Disciplined x.events e := (disc_body x.op).pre_of_runs hrun
    have hown : ∀ file ∈ owned x.events, w.folder file = c.world.folder file := by
      intro file hf
      apply hu.files t ((Service.writer_eq hx).trans hk)
      rwa [Service.files_active hx ha]
    obtain ⟨w', hh', hf⟩ := Handle.follow hh hd (writer_decompress hk hrun) hu.db hu.store hu.lock
      hu.used hu.free hown
    refine ⟨w', hh', ?_⟩
    exact hu.reply (sound_of_steps hc hr) hx ha hp hd hh hf.db hf.store hf.lock hf.used
      (fun file ht => hh'.folder_eq ht) fun _ => hf.touched
  invoke {e c w t x k} hr hu hx hk hp hrest ha := by
    have hrun := task_runs hc.pool hr t x hx
    rw [hrest] at hrun
    have hne := writer_decompress hk hrun
    have hsame (w : World St DB) : (machine P).invoke w t e = w := World.invoke_same w t hne
    rw [hsame, hsame]
    exact hu.moved _ _ hx (by simp [hp]) (by simp) (fun _ _ => rfl) fun _ => rfl
  resume _ hu hx _ hp :=
    hu.moved _ _ hx (by simp [hp]) (by simp) (fun _ _ => rfl) fun _ => rfl
  finish _ hu hx _ hp _ :=
    hu.moved _ _ hx (by simp [hp]) (by simp) (fun _ _ => rfl) fun _ => rfl
  drop hr hu hx _ hp :=
    hu.abandon_both (sound_of_steps hc hr) hx (by rcases hp with hp | hp <;> simp [hp]) (.inl rfl)
  release hr hu hx _ hp :=
    hu.abandon_both (sound_of_steps hc hr) hx (by simp [hp]) (.inr rfl)
  env {c w v} hr hu he := by
    cases he with
    | edit d =>
      refine ⟨{ w with db := d }, .inr (.edit d), ?_⟩
      exact ⟨rfl, hu.store, hu.lock, hu.used, hu.free, hu.files, hu.jobs⟩
    | job t hj =>
      obtain ⟨hdb, hstore, hlock, hused, hothers⟩ := hj.frame
      obtain ⟨src, dst, _, _, hold, _, hpaths⟩ := hj.paths
      obtain ⟨_, _, hdst, hmine⟩ := (sound_of_steps hc hr).job t _ hold
      have hreader : ∀ t', Service.writer c t' = true → t' ≠ t := by
        rintro t' hwr rfl
        rw [hu.jobs t' hwr] at hold
        cases hold
      refine ⟨w, .inl rfl, hu.db.trans hdb.symm, hu.store.trans hstore.symm,
        hu.lock.trans hlock.symm, ?_, ?_, ?_, ?_⟩
      · rw [hused]
        exact hu.used
      · intro file hf
        rw [hused] at hf
        rw [hpaths file fun he => hf (he ▸ hdst)]
        exact hu.free file hf
      · intro t' hwr file hf
        rw [hpaths file fun he => hreader t' hwr (hmine t' (he ▸ hf))]
        exact hu.files t' hwr file hf
      · intro t' hwr
        exact (hothers t' (hreader t' hwr)).trans (hu.jobs t' hwr)

/-- Operations that do not write cannot be told from the database, the storage and the lock: what
a run makes of them, the operations that write make of them alone, with the same calls, replies and
results. -/
theorem readers_invisible (hc : c₀.Initial) (hr : Service.Steps P c₀ c) :
    ∃ d : Service St DB, Service.Steps P c₀ d ∧ Pool.Shows (fun q => q.op.writing) c d ∧
      d.world.db = c.world.db ∧ d.world.store = c.world.store ∧ d.world.lock = c.world.lock := by
  obtain ⟨d, hd, hshows, hu⟩ := hc.forgets.run hc.pool hc.unseen hr
  exact ⟨d, hd, hshows, hu.db, hu.store, hu.lock⟩

/-- A listing is under way when a backup gets the lock. -/
theorem readers_invisible_list : ∃ c d : Service MapStore Bytes, ∃ x y,
    c.tasks 0 = some x ∧ c.tasks 1 = some y ∧ c.trace = [(0, .list 20 none)] ∧
    d.tasks 0 = none ∧ (∃ z, d.tasks 1 = some z ∧ y.Matches z) ∧ d.trace = [] ∧
    d.world.lock = some 1 := by
  let q : Request := ⟨⟨"db", "db", none⟩, .list 0 none⟩
  let q' : Request := ⟨⟨"db", "db", none⟩, .createBackup⟩
  let c₀ : Service MapStore Bytes := ⟨someWorld, fun _ => none, []⟩
  have hc : c₀.Initial := ⟨⟨fun _ => rfl, rfl⟩, rfl, fun _ => rfl⟩
  let x : Client MapStore Bytes := .start Request.body q
  let c₁ : Service MapStore Bytes := c₀.put 0 x someWorld []
  have hs₁ : Service.Step mapPorts c₀ c₁ := .spawn 0 q rfl
  let c₂ : Service MapStore Bytes := c₁.put 0 { x with phase := .waiting } someWorld
    [(0, .list 20 none)]
  have hm : Move (machine mapPorts) 0 c₁.world x ((machine mapPorts).invoke someWorld 0
    (.list 20 none)) { x with phase := .waiting } [(0, .list 20 none)] := .invoke rfl rfl rfl
  have hs₂ : Service.Step mapPorts c₁ c₂ := .move 0 (Pool.put_self ..) hm
  obtain ⟨c, hr, hw, htr, ht⟩ : ∃ c, Service.Steps mapPorts c₂ c ∧ _ :=
    steps_start 1 q' rfl rfl rfl (.locked rfl)
  have hx : c.tasks 0 = some { x with phase := .waiting } := by rw [ht]; rfl
  have hy := congrFun ht 1
  rw [Function.update_self] at hy
  obtain ⟨d, _, hshows, _, _, hlock⟩ := readers_invisible hc (.head hs₁ (.head hs₂ hr))
  refine ⟨c, d, _, _, hx, hy, htr, ?_, hshows.kept 1 _ hy rfl, ?_, ?_⟩
  · apply hshows.hidden
    rw [Pool.keeps_some hx]
    rfl
  · rw [hshows.trace, htr]
    apply List.filter_eq_nil_iff.2
    intro p hp
    rw [List.mem_singleton.1 hp, Pool.keeps_some hx]
    exact Bool.false_ne_true
  · rw [hlock, hw]

end FastBackup

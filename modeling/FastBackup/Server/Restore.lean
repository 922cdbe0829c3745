import FastBackup.Server.Alone
import FastBackup.Server.Shape

namespace FastBackup
open Interaction
set_option autoImplicit true

variable {St DB : Type} {P : Ports St DB}

/-- What a `restore` has established when it invokes the restorer with `src`: `src` holds the
content of `restored`, which was stored when the lock was taken and still is, and the storage has
got a dump of the database as `preRestore`. -/
structure Prepared (P : Ports St DB) (deps : ServiceDeps) (target : BackupTarget)
    (restored : BackupInfo) (src file : Path) (time : DateTime) (preRestore : BackupInfo)
    (content dump : Bytes) (h : Hist St DB) (w : World St DB) : Prop where
  events : h.map Entry.event = prepared deps target restored src file time preRestore
  named : ∀ id, target = .id id → P.storage.proper id → restored.id = id
  delivered : ∃ en ∈ h, en.event = ⟨.download restored src, .ok ()⟩ ∧
    en.post.folder src = some content ∧
    ∃ s', P.storage.exec en.pre.store (.download restored) (.ok content) s'
  ready : w.folder src = some content
  dumped : ∃ en ∈ h, en.event = ⟨.dump file, .ok ()⟩ ∧ P.dumps en.pre.db dump ∧
    en.post.folder file = some dump
  uploaded : ∃ en ∈ h, en.event =
    ⟨.upload (.pgDump file deps.dumperDbName .preRestore time), .ok preRestore⟩ ∧
    en.pre.folder file = some dump
  locked : ∃ en rest, h = en :: rest ∧ en.event = ⟨.tryLock, true⟩ ∧
    P.storage.lookup en.pre.store restored.id = some (restored, content) ∧
    Adds P.storage.lookup (.pgDump file deps.dumperDbName .preRestore time) dump preRestore
      en.pre.store w.store

theorem Handle.resolved {w w' : World St DB} (hl : w.lock = some t)
    (hh : Handle P t w (resolved target restored).call (resolved target restored).reply w') :
    P.storage.names w.store restored ∧
      (∀ id, target = .id id → P.storage.proper id → restored.id = id) ∧ w'.store = w.store := by
  cases target with
  | id id =>
    cases hh with
    | get _ _ hs =>
      obtain ⟨hn, hi⟩ := P.storage.get_names hs
      exact ⟨hn, fun id' he => by cases he; exact hi, P.storage.read_only rfl hs⟩
  | latest =>
    cases hh with
    | latest _ _ hs =>
      exact ⟨P.storage.latest_names hs, by simp, P.storage.read_only rfl hs⟩
    | latestAmong hn => exact absurd hl hn

section
variable {ρ : Hist St DB → World St DB → World St DB → Prop}
  (hρ : ∀ h w w', ρ h w w' → Undisturbed t h w w')

include hρ

/-- One call under the guard: the storage and the live files are as the last reply left them. -/
theorem guarded_call {h : Hist St DB} {e : Call} {r : e.Reply} {evs : List Ev} {q : Svc α}
    (hat : At true files (h.map Entry.event))
    (hat' : At held files' (h.map Entry.event ++ [⟨e, r⟩]))
    (hx : Exec (Under (machine P) t ρ) (h, w) p (⟨e, r⟩ :: evs) q s') :
    ∃ w₁ w₂ p', w₁.store = w.store ∧ (∀ file ∈ files, w₁.folder file = w.folder file) ∧
      Handle P t w₁ e r w₂ ∧ At held files' (List.map Entry.event (h ++ [⟨⟨e, r⟩, w₁, w₂⟩])) ∧
      Exec (Under (machine P) t ρ) (h ++ [⟨⟨e, r⟩, w₁, w₂⟩], w₂) p' evs q s' := by
  obtain ⟨w₁, w₂, p', hr, hh, hx⟩ := exec_uncons hx
  obtain ⟨hs, _, hf⟩ := hρ _ _ _ hr hat.1
  rw [hat.2] at hf
  exact ⟨w₁, w₂, p', hs, hf, hh, by rw [List.map_append]; exact hat', hx⟩

/-- A `dump_and_upload` under the guard: the dump is stored, and the files the operation already
had are untouched. -/
theorem copied_worlds (hat : At true files (h.map Entry.event))
    (hx : Exec (Under (machine P) t ρ) (h, w) p (copied deps kind file time info ++ evs) q s') :
    ∃ dump h' w' p', Exec (Under (machine P) t ρ) (h ++ h', w') p' evs q s' ∧
      h'.map Entry.event = copied deps kind file time info ∧
      (∃ en ∈ h', en.event = ⟨.dump file, .ok ()⟩ ∧ P.dumps en.pre.db dump ∧
        en.post.folder file = some dump) ∧
      (∃ en ∈ h', en.event = ⟨.upload (.pgDump file deps.dumperDbName kind time), .ok info⟩ ∧
        en.pre.folder file = some dump) ∧
      Adds P.storage.lookup (.pgDump file deps.dumperDbName kind time) dump info
        w.store w'.store ∧
      ∀ f ∈ files, w.folder f ≠ none → w'.folder f = w.folder f := by
  obtain ⟨a₁, b₁, p₁, hs₁, hf₁, h₁, hat, hx⟩ := guarded_call hρ hat (hat.tempFile _ _) hx
  obtain ⟨a₂, b₂, p₂, hs₂, hf₂, h₂, hat, hx⟩ := guarded_call hρ hat (hat.same _ (.inl rfl)) hx
  obtain ⟨a₃, b₃, p₃, hs₃, hf₃, h₃, hat, hx⟩ := guarded_call hρ hat (hat.same _ (.inr rfl)) hx
  obtain ⟨a₄, b₄, p₄, hs₄, hf₄, h₄, hat, hx⟩ := guarded_call hρ hat (hat.same _ (.inl rfl)) hx
  obtain ⟨a₅, b₅, p₅, hs₅, hf₅, h₅, hat, hx⟩ := guarded_call hρ hat (hat.dropFile _) hx
  have hfile : file ∈ file :: files := List.mem_cons_self ..
  cases h₁ with
  | tempFile hnew _ =>
  cases h₂ with
  | dump dump hd =>
  cases h₃ with
  | now =>
  cases h₄ with
  | upload content s₄ hc _ hup =>
  cases h₅ with
  | dropFile =>
  have hfolder : a₄.folder file = some dump := by
    rw [hf₄ file hfile, hf₃ file hfile, World.write_self]
  have hcontent : content = dump := Option.some.inj (hc.symm.trans hfolder)
  have hadds := P.storage.upload_ok hup
  rw [hcontent, show a₄.store = w.store from hs₄.trans (hs₃.trans (hs₂.trans hs₁))] at hadds
  simp only [List.append_assoc] at hx
  refine ⟨dump, _, _, p₅, hx, rfl, ?_, ?_, ?_, ?_⟩
  · exact ⟨⟨_, a₂, a₂.write file (some dump)⟩, by simp, rfl, hd, World.write_self ..⟩
  · exact ⟨⟨_, a₄, { a₄ with store := s₄ }⟩, by simp, rfl, hfolder⟩
  · rwa [← show a₅.store = s₄ from hs₅] at hadds
  · intro f hf hsome
    have hmem : f ∈ file :: files := List.mem_cons_of_mem _ hf
    have hne : f ≠ file := by
      rintro rfl
      exact hsome ((hf₁ f hf).symm.trans hnew)
    rw [World.write_of_ne hne, hf₅ f hmem, hf₄ f hmem, hf₃ f hmem, World.write_of_ne hne,
      hf₂ f hmem]
    change (World.write a₁ file (some [])).folder f = w.folder f
    rw [World.write_of_ne hne, hf₁ f hf]

theorem prepared_worlds
    (hx : Exec (Under (machine P) t ρ) ([], w₀) p
      (prepared deps target restored src file time preRestore) q (h, w)) :
    ∃ content dump,
      Prepared P deps target restored src file time preRestore content dump h w := by
  rw [← List.append_nil (prepared ..)] at hx
  obtain ⟨a₁, b₁, p₁, _, h₁, hx⟩ := exec_uncons hx
  cases h₁ with
  | locked =>
  have hat : At true [] (List.map Entry.event
      [⟨⟨.tryLock, true⟩, a₁, { a₁ with lock := some t }⟩]) := ⟨rfl, rfl⟩
  have hres : (resolved target restored).call.awaits = true := by cases target <;> rfl
  obtain ⟨a₂, b₂, p₂, hr₂, h₂, hx⟩ := exec_uncons hx
  obtain ⟨hs₂, hl₂, _⟩ := hρ _ _ _ hr₂ rfl
  have hat := hat.same (resolved target restored) (.inl hres)
  obtain ⟨a₃, b₃, p₃, hs₃, _, h₃, hat, hx⟩ := guarded_call hρ hat (hat.tempFile _ _) hx
  obtain ⟨a₄, b₄, p₄, hs₄, hf₄, h₄, hat, hx⟩ := guarded_call hρ hat (hat.same _ (.inl rfl)) hx
  obtain ⟨dump, h', w', p', hx, hev, hdump, hup, hadds, hfiles⟩ := copied_worlds hρ hat hx
  obtain ⟨hn, hid, hs₂'⟩ := h₂.resolved hl₂
  have hs₃' := h₃.store_eq (by simp) (by simp)
  cases hx with
  | nil =>
  cases h₄ with
  | download content s₄ hdl =>
  have hs : a₄.store = a₁.store := hs₄.trans (hs₃'.trans (hs₃.trans (hs₂'.trans hs₂)))
  have hlook : P.storage.lookup a₄.store restored.id = some (restored, content) := by
    refine P.storage.download_content ?_ hdl
    rw [hs₄, hs₃', hs₃, hs₂']
    exact hn
  have hs₄' : s₄ = a₄.store := P.storage.read_only rfl hdl
  rw [hs] at hlook hs₄'
  refine ⟨content, dump, ⟨?_, hid, ?_, ?_, ?_, ?_, ?_⟩⟩
  · rw [List.map_append, hev]
    rfl
  · exact ⟨_, List.mem_append_left _ (List.mem_append_right _ (List.mem_singleton_self _)), rfl,
      World.write_self .., s₄, hdl⟩
  · rw [hfiles src (List.mem_cons_self ..)]
    · exact World.write_self ..
    · intro hnone
      exact absurd ((World.write_self ..).symm.trans hnone) (by simp)
  · obtain ⟨en, hen, he⟩ := hdump
    exact ⟨en, List.mem_append_right _ hen, he⟩
  · obtain ⟨en, hen, he⟩ := hup
    exact ⟨en, List.mem_append_right _ hen, he⟩
  · refine ⟨_, _, rfl, rfl, hlook, ?_⟩
    have hadds : Adds P.storage.lookup _ dump preRestore s₄ w.store := hadds
    rwa [hs₄'] at hadds

/-- A restorer call that succeeded set the database to the content that was prepared for it. -/
theorem restored_entry {p q : Svc α} {post : List Ev → α → Prop}
    (hs : Safe (RestoreCalls deps target confirm) post [] p)
    (hx : Exec (Under (machine P) t ρ) ([], w₀) p evs q (h₁ ++ en :: h₂, w))
    (he : en.event = ⟨.restore src, .ok ()⟩) :
    ∃ restored file time preRestore content dump w₁,
      Prepared P deps target restored src file time preRestore content dump h₁ w₁ ∧
      P.load content = some en.post.db := by
  obtain ⟨h', hh', hsplit⟩ := exec_entry hx
  obtain ⟨w₁, k, hx₁, hr, hh⟩ := hsplit h₁ en h₂ hh'.symm
  obtain ⟨ev, a, b⟩ := en
  subst he
  obtain ⟨_, restored, file, time, preRestore, _, hev⟩ := hs.pre_of_runs hx₁.runs
  rw [hev] at hx₁
  obtain ⟨content, dump, hp⟩ := prepared_worlds hρ hx₁
  refine ⟨restored, file, time, preRestore, content, dump, w₁, hp, ?_⟩
  have hat : At true [src] (h₁.map Entry.event) := by
    rw [hev]
    exact at_prepared
  obtain ⟨_, _, hf⟩ := hρ _ _ _ hr hat.1
  have hh : Handle P t a (.restore src) (.ok ()) b := hh
  cases hh with
  | restore content' d hc hload =>
    have hsrc : a.folder src = some content := (hf src (hat.mem (by simp))).trans hp.ready
    rw [hsrc, Option.some.injEq] at hc
    subst hc
    exact hload
end

/-- How a call of an operation ends: it returns, or its future is dropped at an awaited call,
which then had no effect or had it already. A dropped `restorer.restore` leaves the database
unchanged, that is, it had no effect. -/
inductive Ends (P : Ports St DB) (t : Nat) (w : World St DB) (p : Svc α) :
    Option α → World St DB → Prop where
  | returned (hx : Exec (Alone P t) ([], w) p evs (.ret a) (h, w')) : Ends P t w p (some a) w'
  | dropped {k : e.Reply → Svc α} (hx : Exec (Alone P t) ([], w) p evs (.call e k) (h, w'))
      (ha : e.awaits = true) : Ends P t w p none (w'.abandon t evs)
  | droppedLate {k : e.Reply → Svc α}
      (hx : Exec (Alone P t) ([], w) p evs (.call e k) (h, w₁)) (ha : e.awaits = true)
      (hn : ∀ src, e ≠ .restore src) (hh : Handle P t w₁ e r w') :
      Ends P t w p none (w'.abandon t (evs ++ [⟨e, r⟩]))

/-- `w'` has the database of `w`, and its storage with at most one pre-restore backup more. -/
def Harmless (P : Ports St DB) (w w' : World St DB) : Prop :=
  w'.db = w.db ∧ (w'.store = w.store ∨ ∃ req content info, req.kind = .preRestore ∧
    Adds P.storage.lookup req content info w.store w'.store)

/-- What the calls of a `restore` leave unchanged as long as the restorer has not succeeded. -/
structure Kept (P : Ports St DB) (w : World St DB) (h : Hist St DB) (w' : World St DB) : Prop where
  db : Unrestored (h.map Entry.event) → w'.db = w.db ∧ ∀ en ∈ h, en.pre.db = w.db
  store : w'.store = w.store ∨ (∃ en ∈ h, ∃ req, en.event.call = .upload req) ∧
    ∃ req content info, req.kind = .preRestore ∧
      Adds P.storage.lookup req content info w.store w'.store

theorem Kept.harmless (hk : Kept P w h w') (hu : Unrestored (h.map Entry.event)) :
    Harmless P w w' := by
  refine ⟨(hk.db hu).1, ?_⟩
  rcases hk.store with hs | ⟨_, hs⟩
  · exact .inl hs
  · exact .inr hs

theorem Kept.step {r : e.Reply} (hk : Kept P w h w₁)
    (hc : RestoreCalls deps target confirm (h.map Entry.event) e) (hh : Handle P t w₁ e r w₂) :
    Kept P w (h ++ [⟨⟨e, r⟩, w₁, w₂⟩]) w₂ := by
  refine ⟨?_, ?_⟩
  · intro hu
    rw [List.map_append] at hu
    obtain ⟨hdb, hen⟩ := hk.db fun src hm => hu src (List.mem_append_left _ hm)
    refine ⟨(hh.db_eq ?_).trans hdb, ?_⟩
    · intro src he
      exact hu src (List.mem_append_right _ (by simp [he]))
    · intro en hm
      rcases List.mem_append.1 hm with hm | hm
      · exact hen en hm
      · rw [List.mem_singleton.1 hm]
        exact hdb
  · by_cases hup : ∃ req, e = .upload req
    · obtain ⟨req, rfl⟩ := hup
      have hs : w₁.store = w.store := by
        rcases hk.store with hs | ⟨⟨en, hm, req', he⟩, _⟩
        · exact hs
        · exact absurd he (hc.2.2 _ (List.mem_map_of_mem hm) req')
      have hnew : ∃ en ∈ h ++ [⟨⟨.upload req, r⟩, w₁, w₂⟩], ∃ req, en.event.call = .upload req :=
        ⟨_, List.mem_append_right _ (List.mem_singleton_self _), req, rfl⟩
      rw [← hs]
      cases hh with
      | uploadUnread => exact .inl rfl
      | upload content s' hf hb hup =>
        cases r with
        | ok info => exact .inr ⟨hnew, req, content, info, hc.1, P.storage.upload_ok hup⟩
        | error e =>
          rcases P.storage.upload_error hup with he | ⟨info, ha⟩
          · exact .inl he
          · exact .inr ⟨hnew, req, content, info, hc.1, ha⟩
    · rw [hh.store_eq (fun req he => hup ⟨req, he⟩) (fun id he => by rw [he] at hc; exact hc)]
      rcases hk.store with hs | ⟨⟨en, hm, he⟩, ha⟩
      · exact .inl hs
      · exact .inr ⟨⟨en, List.mem_append_left _ hm, he⟩, ha⟩

theorem restore_kept
    (hx : Exec (Alone P t) ([], w) (restore deps target confirm).run evs q (h, w')) :
    Kept P w h w' := by
  refine Safe.invariant (Kept P w) (restore_shape deps target confirm) ?_ ?_ hx
  · rintro h w₀ e r w₁ w₂ hk hc rfl hh
    exact hk.step hc hh
  · exact ⟨fun _ => ⟨rfl, by simp⟩, .inl rfl⟩

/-- Before each awaited call of a `restore` the restorer has not succeeded. -/
theorem RestoreCalls.unrestored (hc : RestoreCalls deps target confirm h e)
    (ha : e.awaits = true) : Unrestored h := by
  cases e with
  | get | latest =>
    rw [hc.2]
    simp [Unrestored]
  | download =>
    rw [hc.2]
    cases target <;> simp [Unrestored, resolved]
  | dump => exact hc.1
  | upload => exact hc.2.1
  | restore src =>
    obtain ⟨_, restored, file, time, preRestore, _, rfl⟩ := hc
    cases target <;> simp [Unrestored, prepared, copied, resolved]
  | list | delete | decompress | openFile | read | send => cases hc
  | tryLock | unlock | tempFile | dropFile | now => cases ha

/-- A `restore` that does not return `Ok` is harmless. -/
theorem restore_harmless (he : Ends P t w (restore deps target confirm).run r w')
    (hr : ∀ out, r ≠ some (.ok out)) : Harmless P w w' := by
  have hshape := restore_shape deps target confirm
  cases he with
  | @returned evs a h _ hx =>
    have hend := hshape.post_of_runs hx.runs
    cases a with
    | ok out => exact absurd rfl (hr out)
    | error e =>
      refine (restore_kept hx).harmless ?_
      rw [exec_events hx]
      exact hend
  | dropped hx ha =>
    refine (restore_kept hx).harmless ?_
    rw [exec_events hx]
    exact (hshape.pre_of_runs hx.runs).unrestored ha
  | droppedLate hx ha hn hh =>
    have hc := hshape.pre_of_runs hx.runs
    refine ((restore_kept hx).step (by rw [exec_events hx]; exact hc) hh).harmless ?_
    rw [List.map_append, exec_events hx]
    exact (hc.unrestored ha).append (unrestored_of_calls (by simpa using hn))

/-- A `restore` that returns `Ok` has set the database to the content of the restored backup, and
has stored a dump of the database it found. -/
theorem restore_ok
    (hx : Exec (Alone P t) ([], w) (restore deps target confirm).run evs (.ret (.ok out)) (h, w')) :
    ∃ content dump, P.storage.lookup w.store out.restored.id = some (out.restored, content) ∧
      P.load content = some w'.db ∧ P.dumps w.db dump ∧ ∃ req, req.kind = .preRestore ∧
      Adds P.storage.lookup req dump out.preRestore w.store w'.store := by
  obtain ⟨_, _, src, file, time, rfl⟩ := (restore_shape deps target confirm).post_of_runs hx.runs
  obtain ⟨p₁, ⟨h₁, w₁⟩, hx₁, hx₂⟩ := hx.split
  obtain ⟨content, dump, hp⟩ := prepared_worlds (t := t) undisturbed_alone hx₁
  obtain ⟨en, rest, rfl, _, hlook, hadds⟩ := hp.locked
  obtain ⟨en', hm, _, hdump, _⟩ := hp.dumped
  rw [alone_first hx₁] at hlook hadds
  have hun : Unrestored ((en :: rest).map Entry.event) := by
    rw [hp.events]
    cases target <;> simp [Unrestored, prepared, copied, resolved]
  rw [((restore_kept hx₁).db hun).2 en' hm] at hdump
  obtain ⟨_, _, _, rfl, hr, hx₂⟩ := exec_uncons hx₂
  obtain ⟨_, _, _, rfl, hd, hx₂⟩ := exec_uncons hx₂
  obtain ⟨_, _, _, rfl, hu, hx₂⟩ := exec_uncons hx₂
  cases hx₂ with
  | nil =>
  cases hr with
  | restore b d hb hload =>
  cases hd with
  | dropFile =>
  cases hu with
  | unlock =>
  have hcontent : b = content := Option.some.inj (hb.symm.trans hp.ready)
  exact ⟨content, dump, hlook, hcontent ▸ hload, hdump, _, rfl, hadds⟩

/-- Database overwrites are guarded: when a `restore` invokes the restorer, it has the
confirmation, the lock, the downloaded content of a `PgCustom` backup in the file it passes, and a
stored dump of the database, and it has not invoked the restorer before. If it returns `Ok`, the
database is the content of the restored backup, and `preRestore` is a dump of the old one; in
every other outcome it is harmless. -/
theorem restore_guarded (P : Ports St DB) (deps : ServiceDeps) (target : BackupTarget)
    (confirm : String) (t : Nat) (w : World St DB) :
    (∀ evs src k h w', Exec (Alone P t) ([], w) (restore deps target confirm).run evs
        (.call (.restore src) k) (h, w') →
      confirm = deps.restorerDbName ∧ w'.lock = some t ∧
      (∀ ev ∈ evs, ∀ src, ev.call ≠ .restore src) ∧
      ∃ restored file time preRestore content dump, restored.format = .pgCustom ∧
        Prepared P deps target restored src file time preRestore content dump h w') ∧
    (∀ r w', Ends P t w (restore deps target confirm).run r w' → match r with
      | some (.ok out) => ∃ content dump,
          P.storage.lookup w.store out.restored.id = some (out.restored, content) ∧
          P.load content = some w'.db ∧ P.dumps w.db dump ∧ ∃ req, req.kind = .preRestore ∧
          Adds P.storage.lookup req dump out.preRestore w.store w'.store
      | some (.error _) | none => Harmless P w w') := by
  refine ⟨?_, ?_⟩
  · intro evs src k h w' hx
    obtain ⟨hc, restored, file, time, preRestore, hf, rfl⟩ :=
      (restore_shape deps target confirm).pre_of_runs hx.runs
    obtain ⟨content, dump, hp⟩ := prepared_worlds (t := t) undisturbed_alone hx
    refine ⟨hc, ?_, ?_, restored, file, time, preRestore, content, dump, hf, hp⟩
    · refine guard_lock undisturbed_alone (disc_restore deps target confirm) hx ?_
      rw [hp.events]
      exact at_prepared.1
    · cases target <;> simp [prepared, copied, resolved]
  · intro r w' he
    cases r with
    | none => exact restore_harmless he (by simp)
    | some r =>
      cases r with
      | error e => exact restore_harmless he (by simp)
      | ok out =>
        cases he with
        | returned hx => exact restore_ok hx

/-- The copy a restore of `someBackup` makes. -/
def someCopy : BackupInfo := ⟨"b", "b.pgdump", 1, none, none, .pgCustom, .preRestore⟩

def someRequest : Request := ⟨⟨"db", "db", some 1⟩, .restore (.id "a") "db"⟩

/-- A restore of `someBackup` that reaches its restorer call, and ends well. -/
theorem someRestore_exec : ∃ h w k, Exec (Alone mapPorts 0) ([], someWorld)
    (restore someRequest.deps (.id "a") "db").run
    (prepared someRequest.deps (.id "a") someBackup "f" "g" 0 someCopy)
    (.call (.restore "f") k) (h, w) ∧
    ∃ h' w', Exec (Alone mapPorts 0) (h, w) (.call (.restore "f") k)
      [⟨.restore "f", .ok ()⟩, ⟨.dropFile "f", ()⟩, ⟨.unlock, ()⟩]
      (.ret (.ok ⟨someBackup, someCopy⟩)) (h', w') ∧ w'.db = [2] := by
  unfold restore
  simp only [someRequest, ne_eq, not_true_eq_false, if_false]
  exact ⟨_, _, _,
    alone_cons (.locked rfl) <|
    alone_cons (.get _ (notBusy_ok _) ⟨⟨[2], rfl⟩, rfl, rfl⟩) <|
    alone_cons (.tempFile rfl (by simp [someWorld])) <|
    alone_cons (.download [2] _ ⟨⟨someBackup, rfl⟩, rfl⟩) <|
    alone_cons (.tempFile rfl (by simp [someWorld, World.write])) <|
    alone_cons (.dump _ rfl) <|
    alone_cons (.now 0) <|
    alone_cons (.upload _ _ rfl (notBusy_ok _) ⟨rfl, rfl, rfl, rfl⟩) <|
    alone_cons .dropFile <|
    .nil _ _,
    _, _,
    alone_cons (.restore [2] _ rfl rfl) <|
    alone_cons .dropFile <|
    alone_cons .unlock <|
    .nil _ _, rfl⟩

theorem restore_guarded_someBackup :
    (∃ h w k, Exec (Alone mapPorts 0) ([], someWorld) (restore someRequest.deps (.id "a") "db").run
        (prepared someRequest.deps (.id "a") someBackup "f" "g" 0 someCopy)
        (.call (.restore "f") k) (h, w) ∧ w.lock = some 0 ∧
      ∃ restored file time preRestore content dump, Prepared mapPorts someRequest.deps (.id "a")
        restored "f" file time preRestore content dump h w) ∧
    ∃ w', Ends mapPorts 0 someWorld (restore someRequest.deps (.id "a") "db").run
        (some (.ok ⟨someBackup, someCopy⟩)) w' ∧ w'.db = [2] ∧
      ∃ content dump, mapPorts.storage.lookup someWorld.store "a" = some (someBackup, content) ∧
        mapPorts.load content = some w'.db ∧ mapPorts.dumps someWorld.db dump := by
  obtain ⟨h, w, k, hx, h', w', hx', hdb⟩ := someRestore_exec
  obtain ⟨hcall, hends⟩ := restore_guarded mapPorts someRequest.deps (.id "a") "db" 0 someWorld
  obtain ⟨_, hl, _, restored, file, time, preRestore, content, dump, _, hp⟩ := hcall _ _ _ _ _ hx
  have he := Ends.returned (hx.append hx')
  obtain ⟨content', dump', hlook, hload, hdump, _⟩ := hends _ _ he
  exact ⟨⟨h, w, k, hx, hl, restored, file, time, preRestore, content, dump, hp⟩,
    w', he, hdb, content', dump', hlook, hload, hdump⟩

end FastBackup

import FastBackup.Server.Service

namespace FastBackup
open Interaction
set_option autoImplicit true

abbrev Ev := Event Call Call.Reply

/-- Whether the guard of the write lock is alive after the calls of `h`. -/
def holding (h : List Ev) : Bool :=
  h.foldl (fun held ev => match ev with
    | ⟨.tryLock, got⟩ => got
    | ⟨.unlock, _⟩ => false
    | _ => held) false

/-- The temporary files that are alive after the calls of `h`. -/
def owned (h : List Ev) : List Path :=
  h.foldl (fun files ev => match ev with
    | ⟨.tempFile _, .ok file⟩ => file :: files
    | ⟨.dropFile file, _⟩ => files.erase file
    | _ => files) []

theorem holding_snoc (h : List Ev) (ev : Ev) : holding (h ++ [ev]) = match ev with
    | ⟨.tryLock, got⟩ => got
    | ⟨.unlock, _⟩ => false
    | _ => holding h := by
  rw [holding, List.foldl_append]
  rfl

theorem owned_snoc (h : List Ev) (ev : Ev) : owned (h ++ [ev]) = match ev with
    | ⟨.tempFile _, .ok file⟩ => file :: owned h
    | ⟨.dropFile file, _⟩ => (owned h).erase file
    | _ => owned h := by
  rw [owned, List.foldl_append]
  rfl

/-- The calls that change the database or the storage, or dump the database. -/
def Call.writes : Call → Bool
  | .dump _ | .upload _ | .delete _ | .restore _ => true
  | _ => false

/-- What holds before each call of every operation: the lock is asked for once and released
while held, calls that write are made under it and decompression is not, and only files that are
alive are used. -/
def Disciplined (h : List Ev) : Call → Prop
  | .tryLock => h = []
  | .unlock => holding h = true
  | .tempFile _ | .now | .list _ _ | .latest | .get _ | .read _ | .send _ => True
  | .dropFile file | .openFile file | .download _ file => file ∈ owned h
  | .dump dst => holding h = true ∧ dst ∈ owned h
  | .upload req => holding h = true ∧ req.path ∈ owned h
  | .delete _ => holding h = true
  | .restore src => holding h = true ∧ src ∈ owned h
  | .decompress src dst => holding h = false ∧ src ∈ owned h ∧ dst ∈ owned h

/-- After `h` the guard is alive or not as `held` says, and `files` are the live files. -/
def At (held : Bool) (files : List Path) (h : List Ev) : Prop :=
  holding h = held ∧ owned h = files

/-- Awaited calls and the clock leave the guard and the files alone. -/
theorem At.same (hh : At held files h) (ev : Ev) (ha : ev.call.awaits = true ∨ ev.call = .now) :
    At held files (h ++ [ev]) := by
  obtain ⟨e, r⟩ := ev
  refine ⟨?_, ?_⟩
  · rw [holding_snoc, hh.1]
    cases e <;> simp [Call.awaits] at ha ⊢
  · rw [owned_snoc, hh.2]
    cases e <;> simp [Call.awaits] at ha ⊢

theorem holding_append (hp : ∀ ev ∈ evs, ev.call.awaits = true) :
    holding (h ++ evs) = holding h := by
  induction evs generalizing h with
  | nil => rw [List.append_nil]
  | cons ev evs ih =>
    have hat : At (holding h) (owned h) (h ++ [ev]) :=
      At.same ⟨rfl, rfl⟩ ev (.inl (hp ev (List.mem_cons_self ..)))
    rw [← List.singleton_append, ← List.append_assoc,
      ih fun ev' hm => hp ev' (List.mem_cons_of_mem _ hm)]
    exact hat.1

theorem At.tempFile (hh : At held files h) (suffix : String) (file : Path) :
    At held (file :: files) (h ++ [⟨.tempFile suffix, .ok file⟩]) :=
  ⟨(holding_snoc _ _).trans hh.1, (owned_snoc _ _).trans (congrArg _ hh.2)⟩

theorem At.tempFile_error (hh : At held files h) (suffix e : String) :
    At held files (h ++ [⟨.tempFile suffix, .error e⟩]) :=
  ⟨(holding_snoc _ _).trans hh.1, (owned_snoc _ _).trans hh.2⟩

theorem At.dropFile (hh : At held (file :: files) h) (u : Unit) :
    At held files (h ++ [⟨.dropFile file, u⟩]) := by
  refine ⟨(holding_snoc _ _).trans hh.1, ?_⟩
  rw [owned_snoc, hh.2]
  exact List.erase_cons_head ..

/-- Dropping the file made before the last one; when the two have one name, either goes. -/
theorem At.dropFile_second (hh : At held (file' :: file :: files) h) (u : Unit) :
    At held (file' :: files) (h ++ [⟨.dropFile file, u⟩]) := by
  refine ⟨(holding_snoc _ _).trans hh.1, ?_⟩
  rw [owned_snoc, hh.2]
  change (file' :: file :: files).erase file = file' :: files
  by_cases he : file' = file
  · subst he
    exact List.erase_cons_head ..
  · rw [List.erase_cons_tail (by simpa using he), List.erase_cons_head]

theorem At.unlock (hh : At held files h) (u : Unit) : At false files (h ++ [⟨.unlock, u⟩]) :=
  ⟨holding_snoc _ _, (owned_snoc _ _).trans hh.2⟩

theorem At.mem (hh : At held files h) (hf : file ∈ files) : file ∈ owned h := by
  rwa [hh.2]

/-- One awaited call of a port, made where `Disciplined` allows it. -/
theorem disc_ask (hh : At held files h) (hd : Disciplined h e)
    (ha : e.awaits = true ∨ e = .now) :
    Safe Disciplined (fun h' _ => At held files h') h (ask e) :=
  Safe.call hd fun r => hh.same ⟨e, r⟩ ha

theorem disc_tempFile (hh : At held files h) (suffix : String) :
    Safe Disciplined (fun h' r => match r with
      | .ok file => At held (file :: files) h'
      | .error _ => At held files h') h (tempFile suffix).run := by
  refine Safe.call trivial ?_
  intro r
  cases r with
  | ok file => exact hh.tempFile suffix file
  | error e => exact hh.tempFile_error suffix e

theorem disc_inScope {body : SvcE α}
    (hb : Safe Disciplined (fun h' _ => At held (file :: files) h') h body.run) :
    Safe Disciplined (fun h' _ => At held files h') h (inScope file body).run := by
  apply Meets.bind
  refine hb.post_mono ?_
  intro h' r hh
  exact Safe.call (hh.mem (List.mem_cons_self ..)) fun u => hh.dropFile u

theorem disc_handedOver {body : SvcE α}
    (hb : Safe Disciplined (fun h' _ => At held (file :: files) h') h body.run) :
    Safe Disciplined (fun h' r => match r with
      | .ok _ => At held (file :: files) h'
      | .error _ => At held files h') h (handedOver file body).run := by
  apply Meets.bind
  refine hb.post_mono ?_
  intro h' r hh
  cases r with
  | ok a => exact hh
  | error e => exact Safe.call (hh.mem (List.mem_cons_self ..)) fun u => hh.dropFile u

/-- A sequence whose first part keeps the guard and the files, whether it succeeds or not. -/
theorem disc_seq {x : SvcE α} {f : α → SvcE β}
    (hx : Safe Disciplined (fun h' _ => At held files h') h x.run)
    (hf : ∀ h' a, At held files h' → Safe Disciplined (fun h' _ => At held files h') h' (f a).run) :
    Safe Disciplined (fun h' _ => At held files h') h (x >>= f).run := by
  apply Meets.bindE
  refine hx.post_mono ?_
  intro h' r hh
  cases r with
  | ok a => exact hf h' a hh
  | error e => exact hh

/-- A new temporary file and the scope it lives in. -/
theorem disc_newFile {f : Path → SvcE α} (hh : At held files h) (suffix : String)
    (hf : ∀ h' file, At held (file :: files) h' →
      Safe Disciplined (fun h' _ => At held files h') h' (f file).run) :
    Safe Disciplined (fun h' _ => At held files h') h (tempFile suffix >>= f).run := by
  apply Meets.bindE
  refine (disc_tempFile hh suffix).post_mono ?_
  intro h' r hr
  cases r with
  | ok file => exact hf h' file hr
  | error e => exact hr

theorem disc_dumpAndUpload (hh : At true files h) (deps : ServiceDeps) (kind : BackupKind) :
    Safe Disciplined (fun h' _ => At true files h') h (dumpAndUpload deps kind).run := by
  refine disc_newFile hh _ ?_
  intro h' file hh
  apply disc_inScope
  refine disc_seq (disc_ask hh ⟨hh.1, hh.mem (List.mem_cons_self ..)⟩ (.inl rfl)) ?_
  intro h' _ hh
  refine disc_seq (x := Clock.now) ?_ ?_
  · exact Safe.call trivial fun r => hh.same ⟨.now, r⟩ (.inr rfl)
  · intro h' now hh
    exact disc_ask hh ⟨hh.1, hh.mem (List.mem_cons_self ..)⟩ (.inl rfl)

theorem disc_withLock {body : SvcE α}
    (hb : ∀ h, At true [] h → Safe Disciplined (fun h' _ => At true [] h') h body.run) :
    Safe Disciplined (fun h' _ => At false [] h') [] (withLock body).run := by
  refine Safe.call rfl ?_
  intro got
  cases got with
  | false => exact ⟨rfl, rfl⟩
  | true =>
    apply Meets.bind (p := body.run)
    have hh : At true [] [⟨.tryLock, true⟩] := ⟨rfl, rfl⟩
    refine (hb _ hh).post_mono ?_
    intro h' r hh
    exact Safe.call hh.1 fun u => hh.unlock u

theorem disc_listAllFrom (n : Nat) (token : Option String) (all : List BackupInfo)
    (hh : At held files h) :
    Safe Disciplined (fun h' _ => At held files h') h (listAllFrom n token all).run := by
  induction n generalizing token all h with
  | zero => exact hh
  | succ n ih =>
    refine disc_seq (disc_ask hh trivial (.inl rfl)) ?_
    intro h' page hh
    cases page.nextPageToken with
    | none => exact hh
    | some next =>
      by_cases hn : next ≠ ""
      · simp only [if_pos hn]
        exact ih _ _ hh
      · simp only [if_neg hn]
        exact hh

theorem disc_deleteAll (bs : List BackupInfo) (hh : At true files h) :
    Safe Disciplined (fun h' _ => At true files h') h (deleteAll bs) := by
  induction bs generalizing h with
  | nil => exact hh
  | cons b bs ih =>
    apply Meets.bind
    refine (disc_ask (e := .delete b.id) hh hh.1 (.inl rfl)).post_mono ?_
    intro h' _ hh
    exact ih hh

theorem disc_pruneOldBackups (deps : ServiceDeps) (hh : At true files h) :
    Safe Disciplined (fun h' _ => At true files h') h (pruneOldBackups deps) := by
  unfold pruneOldBackups
  cases deps.retention with
  | none => exact hh
  | some keep =>
    apply Meets.bind
    refine (disc_listAllFrom _ _ _ hh).post_mono ?_
    intro h' r hh
    cases r with
    | ok all => exact disc_deleteAll _ hh
    | error e => exact hh

theorem disc_createBackup (deps : ServiceDeps) :
    Safe Disciplined (fun h' _ => At false [] h') [] (createBackup deps).run := by
  apply disc_withLock
  intro h hh
  refine disc_seq (disc_dumpAndUpload hh deps .regular) ?_
  intro h' info hh
  apply Meets.bind
  exact (disc_pruneOldBackups deps hh).bind.post_mono (fun _ _ hh => hh)

theorem disc_resolve (target : BackupTarget) (hh : At held files h) :
    Safe Disciplined (fun h' _ => At held files h') h (resolve target).run := by
  cases target with
  | id id => exact disc_ask hh trivial (.inl rfl)
  | latest =>
    refine disc_seq (disc_ask hh trivial (.inl rfl)) ?_
    intro h' found hh
    cases found with
    | none => exact hh
    | some info => exact hh

theorem disc_restore (deps : ServiceDeps) (target : BackupTarget) (confirm : String) :
    Safe Disciplined (fun h' _ => At false [] h') [] (restore deps target confirm).run := by
  unfold restore
  by_cases hc : confirm ≠ deps.restorerDbName
  · rw [if_pos hc]
    exact ⟨rfl, rfl⟩
  · rw [if_neg hc]
    apply disc_withLock
    intro h hh
    refine disc_seq (disc_resolve target hh) ?_
    intro h' restored hh
    by_cases hf : restored.format ≠ .pgCustom
    · simp only [if_pos hf]
      exact hh
    · simp only [if_neg hf]
      refine disc_newFile hh _ ?_
      intro h' file hh
      apply disc_inScope
      refine disc_seq (disc_ask hh (hh.mem (List.mem_cons_self ..)) (.inl rfl)) ?_
      intro h' _ hh
      refine disc_seq (disc_dumpAndUpload hh deps .preRestore) ?_
      intro h' preRestore hh
      refine disc_seq (disc_ask hh ⟨hh.1, hh.mem (List.mem_cons_self ..)⟩ (.inl rfl)) ?_
      intro h' _ hh
      exact hh

/-- The compressed file is dropped at the end of its scope, the decompressed one is returned. -/
theorem disc_legacy (info : BackupInfo) (hh : At false (file :: files) h) :
    Safe Disciplined (fun h' r => match r with
      | .ok (_, file) => At false (file :: files) h'
      | .error _ => At false files h') h (inScope file do
        let json ← tempFile ".json"
        handedOver json (decompress file json)
        return (info, json)).run := by
  apply Meets.bind
  apply Meets.bindE
  refine (disc_tempFile hh _).post_mono ?_
  intro h' r hh
  cases r with
  | error e => exact Safe.call (hh.mem (List.mem_cons_self ..)) fun u => hh.dropFile u
  | ok json =>
    have hd : Safe Disciplined (fun h' _ => At false (json :: file :: files) h') h'
        (decompress file json).run := by
      refine Safe.call ⟨hh.1, hh.mem (by simp), hh.mem (by simp)⟩ ?_
      intro r
      cases r with
      | ok r => exact hh.same _ (.inl rfl)
      | error e => exact hh.same _ (.inl rfl)
    apply Meets.bindE
    refine (disc_handedOver hd).post_mono ?_
    intro h' r hh
    cases r with
    | error e => exact Safe.call (hh.mem (List.mem_cons_self ..)) fun u => hh.dropFile u
    | ok u => exact Safe.call (hh.mem (by simp)) fun u => hh.dropFile_second u

theorem disc_download (target : BackupTarget) (hh : At false files h) :
    Safe Disciplined (fun h' r => match r with
      | .ok (_, file) => At false (file :: files) h'
      | .error _ => At false files h') h (download target).run := by
  apply Meets.bindE
  refine (disc_resolve target hh).post_mono ?_
  intro h' r hh
  cases r with
  | error e => exact hh
  | ok info =>
    apply Meets.bindE
    refine (disc_tempFile hh _).post_mono ?_
    intro h' r hh
    cases r with
    | error e => exact hh
    | ok file =>
      apply Meets.bindE
      have hd : Safe Disciplined (fun h' _ => At false (file :: files) h') h'
          (Storage.download info file).run :=
        disc_ask hh (hh.mem (List.mem_cons_self ..)) (.inl rfl)
      refine (disc_handedOver hd).post_mono ?_
      intro h' r hh
      cases r with
      | error e => exact hh
      | ok u =>
        by_cases hf : info.format ≠ .legacyJsonZstd
        · simp only [if_pos hf]
          exact hh
        · simp only [if_neg hf]
          exact disc_legacy info hh

theorem disc_streamLoop (left : Bytes) (hh : At held files h) :
    Safe Disciplined (fun h' _ => At held files h') h (streamLoop left) := by
  induction left using streamLoop.induct generalizing h with
  | case1 left ih =>
    rw [streamLoop]
    simp only [ask, Prog.perform_bind]
    refine Safe.call trivial ?_
    intro r
    have hr := hh.same ⟨.read chunkSize, r⟩ (.inl rfl)
    cases r with
    | error e => exact Safe.call trivial fun sent => hr.same ⟨.send _, sent⟩ (.inl rfl)
    | ok n =>
      by_cases hn : min n left.length = 0
      · simp only [dif_pos hn]
        exact hr
      · simp only [dif_neg hn]
        refine Safe.call trivial ?_
        intro sent
        have hs := hr.same ⟨.send (.ok (.data (left.take n))), sent⟩ (.inl rfl)
        cases sent with
        | false => exact hs
        | true => exact ih n hn hs

theorem disc_streamFile (hh : At held files h) (hf : file ∈ files) :
    Safe Disciplined (fun h' _ => At held files h') h (streamFile file) := by
  refine Safe.call (hh.mem hf) ?_
  intro r
  have hr := hh.same ⟨.openFile file, r⟩ (.inl rfl)
  cases r with
  | ok content => exact disc_streamLoop content hr
  | error e => exact Safe.call trivial fun sent => hr.same ⟨.send _, sent⟩ (.inl rfl)

theorem disc_downloadBackup (target : BackupTarget) (hh : At false files h) :
    Safe Disciplined (fun h' _ => At false files h') h (downloadBackup target) := by
  apply Meets.bind
  refine (disc_download target hh).post_mono ?_
  intro h' r hh
  cases r with
  | error e => exact hh
  | ok got =>
    refine Safe.call trivial ?_
    intro sent
    have hs := hh.same ⟨.send (.ok (.info got.1)), sent⟩ (.inl rfl)
    cases sent with
    | false => exact Safe.call (hs.mem (List.mem_cons_self ..)) fun u => hs.dropFile u
    | true =>
      apply Meets.bind (p := streamFile got.2)
      refine (disc_streamFile hs (List.mem_cons_self ..)).post_mono ?_
      intro h' _ hh
      exact Safe.call (hh.mem (List.mem_cons_self ..)) fun u => hh.dropFile u

/-- The temporary file an operation hands to its caller. -/
def Outcome.files : Outcome → List Path
  | .file (.ok got) => [got.2]
  | _ => []

/-- Every operation keeps the discipline, and ends with the lock released and no live file but the
one it returns. -/
theorem disc_body (q : Request) :
    Safe Disciplined (fun h out => At false out.files h) [] q.body := by
  have hn : At false [] ([] : List Ev) := ⟨rfl, rfl⟩
  unfold Request.body
  cases q.op with
  | createBackup => exact Meets.map (disc_createBackup q.deps)
  | restore target confirm => exact Meets.map (disc_restore q.deps target confirm)
  | list size token =>
    exact Meets.map (p := (listBackups size token).run) (disc_ask hn trivial (.inl rfl))
  | resolve target => exact Meets.map (disc_resolve target hn)
  | downloadBackup target => exact Meets.map (disc_downloadBackup target hn)
  | download target =>
    apply Meets.map
    refine (disc_download target hn).post_mono ?_
    intro h' r hh
    cases r with
    | ok got => exact hh
    | error e => exact hh

/-- After its first call an operation does not get the guard any more. -/
theorem holding_snoc_false {ev : Ev} (hd : Disciplined h ev.call) (hn : h ≠ [])
    (hh : holding h = false) : holding (h ++ [ev]) = false := by
  rw [holding_snoc]
  split
  · exact absurd hd hn
  · rfl
  · exact hh

theorem Runs.not_holding {p q : Svc α} (hr : Runs p h' q) (hs : Safe Disciplined post h p)
    (hn : h ≠ []) (hh : holding h = false) : holding (h ++ h') = false := by
  induction hr generalizing h with
  | nil => rwa [List.append_nil]
  | cons r _ ih =>
    have hk := ih (hs.2 r _ rfl) (by simp) (holding_snoc_false hs.1 hn hh)
    rwa [List.append_assoc] at hk

/-- Operations that do not write never have the guard. -/
theorem reader_not_holding {q : Request} (hw : q.op.writing = false) (hr : Runs q.body h p) :
    holding h = false := by
  have hfirst : ∀ k, q.body ≠ .call .tryLock k := by
    obtain ⟨deps, op⟩ := q
    cases op with
    | createBackup | restore => cases hw
    | list => exact fun k he => nomatch he
    | resolve target | download target | downloadBackup target =>
      cases target <;> exact fun k he => nomatch he
  have hs := disc_body q
  generalize q.body = body at hr hs hfirst
  cases hr with
  | nil => rfl
  | @cons e h _ k r hr =>
    refine Runs.not_holding hr (hs.2 r _ rfl) (by simp) ?_
    cases e with
    | tryLock => exact absurd rfl (hfirst k)
    | _ => rfl

end FastBackup

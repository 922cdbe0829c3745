import FastBackup.Server.Discipline

namespace FastBackup
open Interaction
set_option autoImplicit true

theorem safe_inScope {pre : List Ev → Call → Prop} {post : List Ev → Except Error α → Prop}
    {body : SvcE α} (hd : ∀ h, pre h (.dropFile file))
    (hb : Safe pre (fun h r => post (h ++ [⟨.dropFile file, ()⟩]) r) h body.run) :
    Safe pre post h (inScope file body).run := by
  apply Meets.bind
  refine hb.post_mono ?_
  intro h r hr
  exact Safe.call (hd h) fun _ => hr

theorem safe_handedOver {pre : List Ev → Call → Prop} {post : List Ev → Except Error α → Prop}
    {body : SvcE α} (hd : ∀ h, pre h (.dropFile file))
    (hb : Safe pre (fun h r => match r with
      | .ok a => post h (.ok a)
      | .error e => post (h ++ [⟨.dropFile file, ()⟩]) (.error e)) h body.run) :
    Safe pre post h (handedOver file body).run := by
  apply Meets.bind
  refine hb.post_mono ?_
  intro h r hr
  cases r with
  | ok a => exact hr
  | error e => exact Safe.call (hd h) fun _ => hr

theorem safe_withLock {pre : List Ev → Call → Prop} {post : List Ev → Except Error α → Prop}
    {body : SvcE α} (ht : pre h .tryLock) (hu : ∀ h, pre h .unlock)
    (hbusy : post (h ++ [⟨.tryLock, false⟩])
      (.error (.busy "another backup or restore is in progress")))
    (hb : Safe pre (fun h r => post (h ++ [⟨.unlock, ()⟩]) r) (h ++ [⟨.tryLock, true⟩]) body.run) :
    Safe pre post h (withLock body).run := by
  refine Safe.call ht ?_
  intro got
  cases got with
  | false => exact hbusy
  | true =>
    apply Meets.bind (p := body.run)
    refine hb.post_mono ?_
    intro h r hr
    exact Safe.call (hu h) fun _ => hr

theorem safe_tempFile {pre : List Ev → Call → Prop} {post : List Ev → Except Error α → Prop}
    {f : Path → SvcE α} (ht : pre h (.tempFile suffix))
    (he : ∀ e, post (h ++ [⟨.tempFile suffix, .error e⟩])
      (.error (.io "Could not create temporary file" e)))
    (hf : ∀ file, Safe pre post (h ++ [⟨.tempFile suffix, .ok file⟩]) (f file).run) :
    Safe pre post h (tempFile suffix >>= f).run := by
  apply Meets.bindE
  refine Safe.call ht ?_
  intro r
  cases r with
  | ok file => exact hf file
  | error e => exact he e

/-- The call by which `target` was resolved to `restored`. -/
def resolved : BackupTarget → BackupInfo → Ev
  | .id id, restored => ⟨.get id, .ok restored⟩
  | .latest, restored => ⟨.latest, .ok (some restored)⟩

/-- The calls of a `dump_and_upload` that stored the dump as `info`. -/
def copied (deps : ServiceDeps) (kind : BackupKind) (file : Path) (time : DateTime)
    (info : BackupInfo) : List Ev :=
  [⟨.tempFile ".pgdump", .ok file⟩, ⟨.dump file, .ok ()⟩, ⟨.now, time⟩,
    ⟨.upload (.pgDump file deps.dumperDbName kind time), .ok info⟩, ⟨.dropFile file, ()⟩]

/-- The calls of a `restore` before it invokes the restorer with `src`. -/
def prepared (deps : ServiceDeps) (target : BackupTarget) (restored : BackupInfo) (src file : Path)
    (time : DateTime) (preRestore : BackupInfo) : List Ev :=
  [⟨.tryLock, true⟩, resolved target restored, ⟨.tempFile ".pgdump", .ok src⟩,
    ⟨.download restored src, .ok ()⟩] ++ copied deps .preRestore file time preRestore

theorem at_prepared : At true [src] (prepared deps target restored src file time preRestore) := by
  cases target <;> simp [At, prepared, copied, resolved, holding, owned]

theorem safe_resolve {pre : List Ev → Call → Prop} {post : List Ev → Except Error α → Prop}
    {f : BackupInfo → SvcE α} (hg : ∀ id, target = .id id → pre h (.get id))
    (hl : target = .latest → pre h .latest)
    (he : ∀ ev e, (∀ src, ev.call ≠ .restore src) → post (h ++ [ev]) (.error e))
    (hf : ∀ info, Safe pre post (h ++ [resolved target info]) (f info).run) :
    Safe pre post h (resolve target >>= f).run := by
  cases target with
  | id id =>
    refine Meets.bindE (Safe.call (hg id rfl) ?_)
    intro r
    cases r with
    | ok info => exact hf info
    | error e => exact he ⟨.get id, .error e⟩ e (by simp)
  | latest =>
    refine Meets.bindE (Meets.bindE (Safe.call (hl rfl) ?_))
    intro r
    cases r with
    | error e => exact he ⟨.latest, .error e⟩ e (by simp)
    | ok found =>
      cases found with
      | none => exact he ⟨.latest, .ok none⟩ _ (by simp)
      | some info => exact hf info

/-- The calls of `dump_and_upload`. -/
def Call.copying : Call → Bool
  | .tempFile _ | .dump _ | .now | .upload _ | .dropFile _ => true
  | _ => false

/-- What a `dump_and_upload` that failed can have done. -/
def Uncopied (evs : List Ev) : Prop :=
  ∀ ev ∈ evs, ev.call.copying = true ∧ ∀ req info, ev ≠ ⟨.upload req, .ok info⟩

theorem safe_dumpAndUpload {pre : List Ev → Call → Prop}
    {post : List Ev → Except Error α → Prop} {f : BackupInfo → SvcE α}
    (hp : ∀ h e, e.copying = true → e.awaits = false → pre h e)
    (hd : ∀ file, pre (h ++ [⟨.tempFile ".pgdump", .ok file⟩]) (.dump file))
    (hu : ∀ file time h', h' = h ++ [⟨.tempFile ".pgdump", .ok file⟩, ⟨.dump file, .ok ()⟩,
      ⟨.now, time⟩] → pre h' (.upload (.pgDump file deps.dumperDbName kind time)))
    (he : ∀ evs h' e, h' = h ++ evs → Uncopied evs → post h' (.error e))
    (hf : ∀ file time info h', h' = h ++ copied deps kind file time info →
      Safe pre post h' (f info).run) :
    Safe pre post h (dumpAndUpload deps kind >>= f).run := by
  apply Meets.bindE
  refine safe_tempFile (hp _ _ rfl rfl) ?_ ?_
  · intro e
    exact he [_] _ _ rfl (by simp [Uncopied, Call.copying])
  · intro file
    refine safe_inScope (fun h => hp h _ rfl rfl) ?_
    refine Meets.bindE (Safe.call (hd file) ?_)
    intro r
    cases r with
    | error e =>
      exact he [_, _, _] _ e (by simp only [List.append_assoc]; rfl)
        (by simp [Uncopied, Call.copying])
    | ok u =>
      refine Meets.bindE (Safe.call (hp _ _ rfl rfl) ?_)
      intro time
      refine Safe.call (hu file time _ (by simp only [List.append_assoc]; rfl)) ?_
      intro r
      cases r with
      | error e =>
        exact he [_, _, _, _, _] _ e (by simp only [List.append_assoc]; rfl)
          (by simp [Uncopied, Call.copying])
      | ok info => exact hf file time info _ (by simp only [List.append_assoc]; rfl)

def Unrestored (h : List Ev) : Prop := ∀ src, (⟨.restore src, .ok ()⟩ : Ev) ∉ h

/-- What holds before each call of a `restore`. -/
def RestoreCalls (deps : ServiceDeps) (target : BackupTarget) (confirm : String) (h : List Ev) :
    Call → Prop
  | .get id => target = .id id ∧ h = [⟨.tryLock, true⟩]
  | .latest => target = .latest ∧ h = [⟨.tryLock, true⟩]
  | .download restored dst => restored.format = .pgCustom ∧
      h = [⟨.tryLock, true⟩, resolved target restored, ⟨.tempFile ".pgdump", .ok dst⟩]
  | .dump _ => Unrestored h ∧ ∀ ev ∈ h, ∀ dst, ev.call ≠ .dump dst
  | .upload req => req.kind = .preRestore ∧ Unrestored h ∧ ∀ ev ∈ h, ∀ req, ev.call ≠ .upload req
  | .restore src => confirm = deps.restorerDbName ∧ ∃ restored file time preRestore,
      restored.format = .pgCustom ∧ h = prepared deps target restored src file time preRestore
  | .list _ _ | .delete _ | .decompress _ _ | .openFile _ | .read _ | .send _ => False
  | .tryLock | .unlock | .tempFile _ | .dropFile _ | .now => True

/-- What holds when a `restore` returns. -/
def RestoreEnds (deps : ServiceDeps) (target : BackupTarget) (confirm : String) (h : List Ev) :
    Except Error RestoreOutcome → Prop
  | .ok out => confirm = deps.restorerDbName ∧ out.restored.format = .pgCustom ∧
      ∃ src file time, h = prepared deps target out.restored src file time out.preRestore ++
        [⟨.restore src, .ok ()⟩, ⟨.dropFile src, ()⟩, ⟨.unlock, ()⟩]
  | .error _ => Unrestored h

theorem unrestored_of_calls (hn : ∀ ev ∈ evs, ∀ src, ev.call ≠ .restore src) : Unrestored evs :=
  fun src hm => hn _ hm src rfl

theorem Unrestored.append (hh : Unrestored h) (he : Unrestored evs) : Unrestored (h ++ evs) := by
  intro src hm
  rcases List.mem_append.1 hm with hm | hm
  · exact hh src hm
  · exact he src hm

/-- The restorer is invoked only after all preparations, and `Ok` is returned only after it. -/
theorem restore_shape (deps : ServiceDeps) (target : BackupTarget) (confirm : String) :
    Safe (RestoreCalls deps target confirm) (RestoreEnds deps target confirm) []
      (restore deps target confirm).run := by
  unfold restore
  by_cases hc : confirm ≠ deps.restorerDbName
  · rw [if_pos hc]
    intro src hm
    cases hm
  · rw [if_neg hc]
    have hc := not_not.1 hc
    refine safe_withLock trivial (fun _ => trivial) ?_ ?_
    · simp [RestoreEnds, Unrestored]
    · have hl : Unrestored [⟨.tryLock, true⟩] := by simp [Unrestored]
      refine safe_resolve (fun _ he => ⟨he, rfl⟩) (fun he => ⟨he, rfl⟩) ?_ ?_
      · intro ev e hev
        exact (hl.append (unrestored_of_calls (by simpa using hev))).append (by simp [Unrestored])
      · intro restored
        have hres : Unrestored [⟨.tryLock, true⟩, resolved target restored] := by
          cases target <;> simp [Unrestored, resolved]
        by_cases hf : restored.format ≠ .pgCustom
        · simp only [if_pos hf]
          exact hres.append (by simp [Unrestored])
        · simp only [if_neg hf]
          have hf := not_not.1 hf
          refine safe_tempFile trivial ?_ ?_
          · intro e
            exact (hres.append (by simp [Unrestored])).append (by simp [Unrestored])
          · intro src
            refine safe_inScope (fun _ => trivial) ?_
            refine Meets.bindE (Safe.call ⟨hf, rfl⟩ ?_)
            intro r
            cases r with
            | error e =>
              simp only [List.append_assoc]
              exact hres.append (by simp [Unrestored])
            | ok u =>
              have hdl : Unrestored ([⟨.tryLock, true⟩, resolved target restored] ++
                  [⟨.tempFile ".pgdump", .ok src⟩, ⟨.download restored src, .ok u⟩]) :=
                hres.append (by simp [Unrestored])
              refine safe_dumpAndUpload ?_ ?_ ?_ ?_ ?_
              · intro h e he ha
                cases e with
                | tempFile | now | dropFile => trivial
                | dump | upload => cases ha
                | _ => cases he
              · intro file
                refine ⟨hdl.append (by simp [Unrestored]), ?_⟩
                cases target <;> simp [resolved]
              · rintro file time _ rfl
                refine ⟨rfl, hdl.append (by simp [Unrestored]), ?_⟩
                cases target <;> simp [resolved]
              · rintro evs _ e rfl hevs
                have hcopy : Unrestored evs := by
                  apply unrestored_of_calls
                  intro ev hev src he
                  have hcp := (hevs ev hev).1
                  rw [he] at hcp
                  cases hcp
                exact ((hdl.append hcopy).append (by simp [Unrestored])).append
                  (by simp [Unrestored])
              · rintro file time preRestore _ rfl
                refine Meets.bindE (Safe.call ⟨hc, restored, file, time, preRestore, hf, rfl⟩ ?_)
                intro r
                cases r with
                | error e =>
                  have hend : Unrestored (copied deps .preRestore file time preRestore ++
                      [⟨.restore src, .error e⟩, ⟨.dropFile src, ()⟩, ⟨.unlock, ()⟩]) := by
                    simp [Unrestored, copied]
                  exact hdl.append hend
                | ok u => exact ⟨hc, hf, src, file, time, rfl⟩

/-- The calls that read `pages` one after the other, the first of them with `token`. -/
def pageCalls : Option String → List (Page BackupInfo) → List Ev
  | _, [] => []
  | token, page :: pages =>
    ⟨.list maxPageSize token, .ok page⟩ :: pageCalls page.nextPageToken pages

/-- The token for the page after `pages`. -/
def tokenAfter : Option String → List (Page BackupInfo) → Option String
  | token, [] => token
  | _, page :: pages => tokenAfter page.nextPageToken pages

/-- `pages` end with the last page of the listing. -/
def Complete : List (Page BackupInfo) → Prop
  | [] => False
  | page :: pages => if page.more then Complete pages else pages = []

/-- How a `list_all` with `n` pages left can end, and the calls it makes. -/
def Listed (n : Nat) (token : Option String) (all : List BackupInfo) (evs : List Ev) :
    Except Error (List BackupInfo) → Prop
  | .ok bs => ∃ pages, Complete pages ∧ pages.length ≤ n ∧ evs = pageCalls token pages ∧
      bs = all ++ pages.flatMap Page.items
  | .error e => ∃ pages, (∀ page ∈ pages, page.more = true) ∧
      (pages.length = n ∧ e = .storage "more than 100 pages of backups" ∧
          evs = pageCalls token pages ∨
        pages.length < n ∧
          evs = pageCalls token pages ++ [⟨.list maxPageSize (tokenAfter token pages), .error e⟩])

theorem Listed.cons (hm : page.more = true)
    (hl : Listed n page.nextPageToken (all ++ page.items) evs r) :
    Listed (n + 1) token all (⟨.list maxPageSize token, .ok page⟩ :: evs) r := by
  cases r with
  | ok bs =>
    obtain ⟨pages, hc, hn, rfl, rfl⟩ := hl
    refine ⟨page :: pages, ?_, Nat.succ_le_succ hn, rfl, ?_⟩
    · simp only [Complete, hm, if_true]
      exact hc
    · rw [List.flatMap_cons, List.append_assoc]
  | error e =>
    obtain ⟨pages, hp, hl⟩ := hl
    refine ⟨page :: pages, ?_, ?_⟩
    · intro page' hm'
      rcases List.mem_cons.1 hm' with rfl | hm'
      · exact hm
      · exact hp page' hm'
    · rcases hl with ⟨hn, he, rfl⟩ | ⟨hn, rfl⟩
      · exact .inl ⟨congrArg Nat.succ hn, he, rfl⟩
      · exact .inr ⟨Nat.succ_lt_succ hn, rfl⟩

theorem listAllFrom_succ (n : Nat) (token : Option String) (all : List BackupInfo) :
    listAllFrom (n + 1) token all = Storage.list maxPageSize token >>= fun page =>
      if page.more then listAllFrom n page.nextPageToken (all ++ page.items)
      else return all ++ page.items := by
  rw [listAllFrom]
  congr 1
  funext page
  cases ht : page.nextPageToken with
  | none => simp [Page.more, ht]
  | some next => simp [Page.more, ht]

theorem safe_listAllFrom {pre : List Ev → Call → Prop}
    (hp : ∀ pages h', h' = h ++ pageCalls token pages → (∀ page ∈ pages, page.more = true) →
      pages.length < n → pre h' (.list maxPageSize (tokenAfter token pages))) :
    Safe pre (fun h' r => ∃ evs, h' = h ++ evs ∧ Listed n token all evs r) h
      (listAllFrom n token all).run := by
  induction n generalizing h token all with
  | zero => exact ⟨[], by simp, [], by simp, .inl ⟨rfl, rfl, rfl⟩⟩
  | succ n ih =>
    rw [listAllFrom_succ]
    refine Meets.bindE (Safe.call (hp [] h (by simp [pageCalls]) (by simp) (by simp)) ?_)
    intro r
    cases r with
    | error e => exact ⟨_, rfl, [], by simp, .inr ⟨by simp, rfl⟩⟩
    | ok page =>
      change Safe pre _ _ (ExceptT.run (if page.more then _ else _))
      by_cases hm : page.more = true
      · rw [if_pos hm]
        refine (ih ?_).post_mono ?_
        · rintro pages _ rfl hmore hn
          refine hp (page :: pages) _ (by simp [pageCalls]) ?_ (Nat.succ_lt_succ hn)
          simpa [hm] using hmore
        · rintro h' r ⟨evs, rfl, hl⟩
          exact ⟨_, by rw [List.append_assoc]; rfl, hl.cons hm⟩
      · rw [if_neg hm]
        exact ⟨_, rfl, [page], by simp [Complete, hm], by simp, rfl, by simp⟩

theorem listAllFrom_call (n : Nat) (token : Option String) (all : List BackupInfo) :
    (listAllFrom (n + 1) token all).run = .call (.list maxPageSize token) fun r => match r with
      | .ok page => ExceptT.run (if page.more then
          listAllFrom n page.nextPageToken (all ++ page.items) else return all ++ page.items)
      | .error e => .ret (.error e) := by
  rw [listAllFrom_succ]
  refine Eq.trans (b := Prog.call (.list maxPageSize token) (ExceptT.bindCont _)) rfl ?_
  congr 1
  funext r
  cases r <;> rfl

/-- A listing can go as `Listed` says. -/
theorem runs_of_listed (hl : Listed n token all evs r) :
    Runs (listAllFrom n token all).run evs (.ret r) := by
  induction n generalizing token all evs with
  | zero =>
    cases r with
    | ok bs =>
      obtain ⟨pages, hc, hn, _⟩ := hl
      cases pages with
      | nil => cases hc
      | cons => cases hn
    | error e =>
      obtain ⟨pages, _, ⟨hn, rfl, rfl⟩ | ⟨hn, _⟩⟩ := hl
      · rw [List.eq_nil_of_length_eq_zero hn]
        exact .nil _
      · cases hn
  | succ n ih =>
    have hread : ∀ page evs', (if page.more = true
          then Listed n page.nextPageToken (all ++ page.items) evs' r
          else evs' = [] ∧ r = .ok (all ++ page.items)) →
        Runs (listAllFrom (n + 1) token all).run (⟨.list maxPageSize token, .ok page⟩ :: evs')
          (.ret r) := by
      intro page evs' hpage
      rw [listAllFrom_call]
      refine Runs.cons _ ?_
      change Runs (ExceptT.run (if page.more = true then _ else _)) _ _
      by_cases hm : page.more = true
      · rw [if_pos hm] at hpage ⊢
        exact ih hpage
      · rw [if_neg hm] at hpage ⊢
        obtain ⟨rfl, rfl⟩ := hpage
        exact .nil _
    cases r with
    | ok bs =>
      obtain ⟨pages, hc, hn, rfl, rfl⟩ := hl
      cases pages with
      | nil => cases hc
      | cons page pages =>
        apply hread
        rw [Complete] at hc
        by_cases hm : page.more = true
        · rw [if_pos hm] at hc ⊢
          exact ⟨pages, hc, Nat.le_of_succ_le_succ hn, rfl, by simp⟩
        · rw [if_neg hm] at hc ⊢
          subst hc
          exact ⟨rfl, by simp⟩
    | error e =>
      obtain ⟨pages, hm, hl⟩ := hl
      cases pages with
      | nil =>
        rcases hl with ⟨hn, _⟩ | ⟨_, rfl⟩
        · cases hn
        · rw [listAllFrom_call]
          exact Runs.cons _ (.nil _)
      | cons page pages =>
        have hmore := hm page (List.mem_cons_self ..)
        have hrest : ∀ page ∈ pages, page.more = true :=
          fun page hp => hm page (List.mem_cons_of_mem _ hp)
        rcases hl with ⟨hn, he, rfl⟩ | ⟨hn, rfl⟩
        · apply hread
          rw [if_pos hmore]
          exact ⟨pages, hrest, .inl ⟨Nat.succ.inj hn, he, rfl⟩⟩
        · apply hread
          rw [if_pos hmore]
          exact ⟨pages, hrest, .inr ⟨Nat.lt_of_succ_lt_succ hn, rfl⟩⟩

/-- The calls that delete `bs` one after the other, with their replies. -/
def deleteCalls (bs : List BackupInfo) (rs : List (Except Error Unit)) : List Ev :=
  List.zipWith (fun b r => ⟨.delete b.id, r⟩) bs rs

theorem safe_deleteAll {pre : List Ev → Call → Prop}
    (hp : ∀ done b rest rs h', bs = done ++ b :: rest → rs.length = done.length →
      h' = h ++ deleteCalls done rs → pre h' (.delete b.id)) :
    Safe pre (fun h' _ => ∃ rs, rs.length = bs.length ∧ h' = h ++ deleteCalls bs rs) h
      (deleteAll bs) := by
  induction bs generalizing h with
  | nil => exact ⟨[], rfl, (List.append_nil h).symm⟩
  | cons b bs ih =>
    refine Safe.call (hp [] b bs [] h rfl rfl (List.append_nil h).symm) ?_
    intro r
    refine Meets.post_mono (p := deleteAll bs) (ih ?_) ?_
    · rintro done b' rest rs _ rfl hrs rfl
      exact hp (b :: done) b' rest (r :: rs) _ rfl (congrArg Nat.succ hrs) (List.append_assoc ..)
    · rintro h' _ ⟨rs, hrs, rfl⟩
      exact ⟨r :: rs, congrArg Nat.succ hrs, List.append_assoc ..⟩

/-- The calls of retention. -/
def Call.prunes : Call → Bool
  | .list _ _ | .delete _ => true
  | _ => false

theorem Call.prunes_awaits {e : Call} (hp : e.prunes = true) : e.awaits = true := by
  cases e with
  | list | delete => rfl
  | _ => cases hp

theorem mem_pageCalls (hm : ev ∈ pageCalls token pages) :
    ∃ token' page, page ∈ pages ∧ ev = ⟨.list maxPageSize token', .ok page⟩ := by
  induction pages generalizing token with
  | nil => cases hm
  | cons page pages ih =>
    rcases List.mem_cons.1 hm with rfl | hm
    · exact ⟨token, page, List.mem_cons_self .., rfl⟩
    · obtain ⟨token', page', hp, he⟩ := ih hm
      exact ⟨token', page', List.mem_cons_of_mem _ hp, he⟩

theorem mem_deleteCalls (hm : ev ∈ deleteCalls bs rs) :
    ∃ b r, b ∈ bs ∧ ev = ⟨.delete b.id, r⟩ := by
  induction bs generalizing rs with
  | nil => cases hm
  | cons b bs ih =>
    cases rs with
    | nil => cases hm
    | cons r rs =>
      rcases List.mem_cons.1 hm with rfl | hm
      · exact ⟨b, r, List.mem_cons_self .., rfl⟩
      · obtain ⟨b', r', hb, he⟩ := ih hm
        exact ⟨b', r', List.mem_cons_of_mem _ hb, he⟩

theorem pageCalls_prunes (token : Option String) (pages : List (Page BackupInfo)) :
    ∀ ev ∈ pageCalls token pages, ev.call.prunes = true := by
  intro ev hm
  obtain ⟨_, _, _, rfl⟩ := mem_pageCalls hm
  rfl

theorem deleteCalls_prunes : ∀ ev ∈ deleteCalls bs rs, ev.call.prunes = true := by
  intro ev hm
  obtain ⟨_, _, _, rfl⟩ := mem_deleteCalls hm
  rfl

/-- The page reads of a listing, cut at one of its pages. -/
theorem pageCalls_split (token : Option String) (hm : page ∈ pages) : ∃ token' before after,
    pageCalls token pages = before ++ ⟨.list maxPageSize token', .ok page⟩ :: after ∧
      ∀ ev ∈ after, ev.call.prunes = true := by
  induction pages generalizing token with
  | nil => cases hm
  | cons page' pages ih =>
    rcases List.mem_cons.1 hm with rfl | hm
    · exact ⟨token, [], _, rfl, pageCalls_prunes _ _⟩
    · obtain ⟨token', before, after, he, hp⟩ := ih page'.nextPageToken hm
      exact ⟨token', _ :: before, after, by rw [pageCalls, he, List.cons_append], hp⟩

/-- What is listed is on a page that was read. -/
theorem pageCalls_of_item (token : Option String) (hi : i ∈ pages.flatMap Page.items) :
    ∃ token' page, i ∈ page.items ∧
      (⟨.list maxPageSize token', .ok page⟩ : Ev) ∈ pageCalls token pages := by
  obtain ⟨page, hpage, hi⟩ := List.mem_flatMap.1 hi
  obtain ⟨token', before, after, hcut, _⟩ := pageCalls_split token hpage
  refine ⟨token', page, hi, ?_⟩
  rw [hcut]
  exact List.mem_append_right _ (List.mem_cons_self ..)

/-- A listing makes only list calls. -/
theorem Listed.calls (hl : Listed n token all evs r) :
    ∀ ev ∈ evs, ∃ size token, ev.call = .list size token := by
  have hpages : ∀ pages, ∀ ev ∈ pageCalls token pages,
      ∃ size token, ev.call = .list size token := by
    intro pages ev hm
    obtain ⟨token', _, _, rfl⟩ := mem_pageCalls hm
    exact ⟨_, token', rfl⟩
  cases r with
  | ok bs =>
    obtain ⟨pages, _, _, rfl, _⟩ := hl
    exact hpages pages
  | error e =>
    obtain ⟨pages, _, ⟨_, _, rfl⟩ | ⟨_, rfl⟩⟩ := hl
    · exact hpages pages
    · intro ev hm
      rcases List.mem_append.1 hm with hm | hm
      · exact hpages pages ev hm
      · rw [List.mem_singleton.1 hm]
        exact ⟨_, _, rfl⟩

theorem Listed.no_delete {id : String} (hl : Listed n token all evs r) :
    ∀ ev ∈ evs, ev.call ≠ .delete id := by
  intro ev hm
  obtain ⟨_, _, hc⟩ := hl.calls ev hm
  rw [hc]
  simp

/-- The calls retention makes after an upload. -/
def Pruned (retention : Option Nat) (evs : List Ev) : Prop :=
  match retention with
  | none => evs = []
  | some keep => ∃ r listing, Listed maxRetentionPages none [] listing r ∧ match r with
    | .ok all => ∃ rs, rs.length = (retentionCandidates all keep).length ∧
        evs = listing ++ deleteCalls (retentionCandidates all keep) rs
    | .error _ => evs = listing

theorem Pruned.prunes (hp : Pruned retention evs) : ∀ ev ∈ evs, ev.call.prunes = true := by
  cases retention with
  | none =>
    rw [show evs = [] from hp]
    simp
  | some keep =>
    obtain ⟨r, listing, hl, hp⟩ := hp
    have hlist : ∀ ev ∈ listing, ev.call.prunes = true := by
      intro ev hm
      obtain ⟨_, _, hc⟩ := hl.calls ev hm
      rw [hc]
      rfl
    cases r with
    | error e =>
      rw [show evs = listing from hp]
      exact hlist
    | ok all =>
      obtain ⟨rs, _, rfl⟩ := hp
      intro ev hm
      rcases List.mem_append.1 hm with hm | hm
      · exact hlist ev hm
      · exact deleteCalls_prunes ev hm

theorem safe_pruneOldBackups {pre : List Ev → Call → Prop}
    (hl : ∀ pages h', h' = h ++ pageCalls none pages → (∀ page ∈ pages, page.more = true) →
      pages.length < maxRetentionPages → pre h' (.list maxPageSize (tokenAfter none pages)))
    (hd : ∀ keep pages done b rest rs h', deps.retention = some keep → Complete pages →
      pages.length ≤ maxRetentionPages →
      retentionCandidates (pages.flatMap Page.items) keep = done ++ b :: rest →
      rs.length = done.length → h' = h ++ pageCalls none pages ++ deleteCalls done rs →
      pre h' (.delete b.id)) :
    Safe pre (fun h' _ => ∃ evs, h' = h ++ evs ∧ Pruned deps.retention evs) h
      (pruneOldBackups deps) := by
  unfold pruneOldBackups
  cases hk : deps.retention with
  | none => exact ⟨[], by simp, rfl⟩
  | some keep =>
    apply Meets.bind
    refine (safe_listAllFrom hl).post_mono ?_
    rintro h' r ⟨listing, rfl, hlist⟩
    cases r with
    | error e => exact ⟨listing, rfl, .error e, listing, hlist, rfl⟩
    | ok all =>
      obtain ⟨pages, hc, hn, rfl, rfl⟩ := hlist
      refine (safe_deleteAll ?_).post_mono ?_
      · intro done b rest rs h' hsplit hrs hh
        exact hd keep pages done b rest rs h' hk hc hn hsplit hrs hh
      · rintro h' _ ⟨rs, hrs, rfl⟩
        exact ⟨_, List.append_assoc .., .ok _, _, ⟨pages, hc, hn, rfl, rfl⟩, rs, hrs, rfl⟩

/-- The calls of a `create_backup` before retention. -/
def created (deps : ServiceDeps) (file : Path) (time : DateTime) (info : BackupInfo) : List Ev :=
  [⟨.tryLock, true⟩] ++ copied deps .regular file time info

/-- What holds before each call of a `create_backup`. -/
def CreateCalls (deps : ServiceDeps) (h : List Ev) : Call → Prop
  | .upload req => ∃ file time, req = .pgDump file deps.dumperDbName .regular time
  | .list size token => ∃ file time info pages, (∀ page ∈ pages, page.more = true) ∧
      pages.length < maxRetentionPages ∧ size = maxPageSize ∧ token = tokenAfter none pages ∧
      h = created deps file time info ++ pageCalls none pages
  | .delete id => ∃ file time info keep pages done b rest rs, deps.retention = some keep ∧
      Complete pages ∧ pages.length ≤ maxRetentionPages ∧
      retentionCandidates (pages.flatMap Page.items) keep = done ++ b :: rest ∧
      rs.length = done.length ∧ id = b.id ∧
      h = created deps file time info ++ pageCalls none pages ++ deleteCalls done rs
  | .latest | .get _ | .download _ _ | .restore _ | .decompress _ _ | .openFile _ | .read _
  | .send _ => False
  | .dump _ => ∀ ev ∈ h, ∀ dst, ev.call ≠ .dump dst
  | .tryLock | .unlock | .tempFile _ | .dropFile _ | .now => True

/-- What holds when a `create_backup` returns. -/
def CreateEnds (deps : ServiceDeps) (h : List Ev) : Except Error BackupInfo → Prop
  | .ok info => ∃ file time evs, Pruned deps.retention evs ∧
      h = created deps file time info ++ evs ++ [⟨.unlock, ()⟩]
  | .error _ => (∀ ev ∈ h, ∀ id, ev.call ≠ .delete id) ∧
      ∀ ev ∈ h, ∀ req info, ev ≠ ⟨.upload req, .ok info⟩

/-- A successful upload makes `create_backup` return `Ok`, whatever happens in retention. -/
theorem createBackup_shape (deps : ServiceDeps) :
    Safe (CreateCalls deps) (CreateEnds deps) [] (createBackup deps).run := by
  refine safe_withLock trivial (fun _ => trivial) (by simp [CreateEnds]) ?_
  refine safe_dumpAndUpload ?_ (fun _ => by simp [CreateCalls]) ?_ ?_ ?_
  · intro h e he ha
    cases e with
    | tempFile | now | dropFile => trivial
    | dump | upload => cases ha
    | _ => cases he
  · rintro file time _ rfl
    exact ⟨file, time, rfl⟩
  · rintro evs _ e rfl hevs
    refine ⟨?_, ?_⟩
    · intro ev hev id he
      simp only [List.nil_append, List.mem_append, List.mem_singleton] at hev
      rcases hev with (rfl | hev) | rfl
      · cases he
      · have hc := (hevs ev hev).1
        rw [he] at hc
        cases hc
      · cases he
    · intro ev hev req info he
      simp only [List.nil_append, List.mem_append, List.mem_singleton] at hev
      rcases hev with (rfl | hev) | rfl
      · cases he
      · exact (hevs ev hev).2 req info he
      · cases he
  · rintro file time info _ rfl
    refine Meets.bindE (x := ExceptT.lift (pruneOldBackups deps)) ?_
    refine Meets.bind (p := pruneOldBackups deps) ?_
    refine (safe_pruneOldBackups ?_ ?_).post_mono ?_
    · rintro pages _ rfl hm hn
      exact ⟨file, time, info, pages, hm, hn, rfl, rfl, rfl⟩
    · rintro keep pages done b rest rs _ hk hc hn hs hrs rfl
      exact ⟨file, time, info, keep, pages, done, b, rest, rs, hk, hc, hn, hs, hrs, rfl, rfl⟩
    · rintro h _ ⟨evs, rfl, hp⟩
      exact ⟨file, time, evs, hp, rfl⟩

/-- What holds before each call of an operation that writes. -/
def Request.Calls (q : Request) (h : List Ev) (e : Call) : Prop :=
  match q.op with
  | .createBackup => CreateCalls q.deps h e
  | .restore target confirm => RestoreCalls q.deps target confirm h e
  | _ => True

/-- What holds when an operation that writes returns. -/
def Request.Ends (q : Request) (h : List Ev) (out : Outcome) : Prop :=
  match q.op, out with
  | .createBackup, .backup r => CreateEnds q.deps h r
  | .restore target confirm, .restored r => RestoreEnds q.deps target confirm h r
  | .createBackup, _ | .restore _ _, _ => False
  | _, _ => True

theorem shape_body (q : Request) : Safe q.Calls q.Ends [] q.body := by
  obtain ⟨deps, op⟩ := q
  cases op with
  | createBackup => exact Meets.map (createBackup_shape deps)
  | restore target confirm => exact Meets.map (restore_shape deps target confirm)
  | list | resolve | download | downloadBackup =>
    exact (Meets.top _ _).mono (fun _ _ _ => trivial) (fun _ _ _ => trivial)

end FastBackup

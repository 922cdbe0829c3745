import FastBackup.Server.Alone
import FastBackup.Server.Blocking

namespace FastBackup
open Interaction
set_option autoImplicit true

variable {St DB : Type} {P : Ports St DB} {c₀ c c' : Service St DB}

/-- Operation `t` is dropped by this step. -/
def Service.Drops (c c' : Service St DB) (t : Nat) : Prop :=
  ∃ x x', c.tasks t = some x ∧ x.phase ≠ .dropped ∧ c'.tasks t = some x' ∧ x'.phase = .dropped

/-- The `decompress_file` of operation `t` has opened its source and is to create `dst` next. -/
def Service.Creating (c : Service St DB) (t : Nat) (dst : Path) : Prop :=
  ∃ src input, c.world.jobs t = some ⟨src, dst, .opened input⟩

/-- Operation `t` and its blocking task are over, and so is the file it returned, if any. -/
def Service.Over (c : Service St DB) (t : Nat) : Prop :=
  ∀ x, c.tasks t = some x →
    (x.phase = .dropped ∨ x.phase = .released ∨
      x.phase = .finished ∧ ∃ out, x.rest = .ret out ∧ out.files = []) ∧
    ∀ job, c.world.jobs t = some job → ∃ r, job.stage = .ended r

/-- An operation that is over has no file. -/
theorem Service.Over.files (hc : c₀.Initial) (hr : Service.Steps P c₀ c) (ho : c.Over t) :
    c.files t = [] := by
  cases hx : c.tasks t with
  | none => rw [Service.files, hx]
  | some x =>
    rw [Service.files, hx]
    rcases (ho x hx).1 with hp | hp | ⟨hp, out, hq, hn⟩
    · simp only [hp, true_or, if_true]
    · simp only [hp, or_true, if_true]
    · have hrun := task_runs hc.pool hr t x hx
      rw [hq] at hrun
      have hd : At false out.files x.events := (disc_body x.op).post_of_runs hrun
      simp only [hp, reduceCtorEq, or_self, if_false]
      rw [hd.2, hn]

/-- A call that ends the ownership of a file removes it. -/
theorem owned_snoc_lost (hf : file ∈ owned h) (hn : file ∉ owned (h ++ [ev])) :
    ∃ u, ev = ⟨.dropFile file, u⟩ := by
  rw [owned_snoc] at hn
  split at hn
  · exact absurd (List.mem_cons_of_mem _ hf) hn
  · next file' u =>
    by_cases he : file = file'
    · exact ⟨u, by rw [he]⟩
    · exact absurd ((List.mem_erase_of_ne he).2 hf) hn
  · exact absurd hf hn

/-- A call changes files of its operation only. -/
theorem Handle.touched_owned {w w' : World St DB} {ev : Ev}
    (hh : Handle P t w ev.call ev.reply w') (hd : Disciplined h ev.call)
    (ht : ev.call.touched ev.reply = some file) :
    file ∈ owned (h ++ [ev]) ∨ ev = ⟨.dropFile file, ()⟩ := by
  obtain ⟨e, r⟩ := ev
  cases hh with
  | tempFile =>
    cases ht
    exact .inl ((owned_snoc _ _).symm ▸ List.mem_cons_self ..)
  | dropFile =>
    cases ht
    exact .inr rfl
  | download | downloadError =>
    cases ht
    exact .inl ((owned_snoc _ _).symm ▸ hd)
  | dump | dumpError =>
    cases ht
    exact .inl ((owned_snoc _ _).symm ▸ hd.2)
  | _ => cases ht

/-- The names a step can bring into the hands of an operation or of a blocking task, and the files
it can change. -/
structure Service.Names (c c' : Service St DB) : Prop where
  used : file ∈ c.world.used → file ∈ c'.world.used
  files : file ∈ c'.files t →
    file ∈ c.files t ∨ file ∉ c.world.used ∧ c.world.folder file = none
  jobs : c'.world.jobs t = some job →
    job.dst ∈ c.files t ∨ ∃ job', c.world.jobs t = some job' ∧ job'.dst = job.dst
  folder : ∀ file, c'.world.folder file = c.world.folder file ∨ (∃ t, file ∈ c.files t) ∨
    (∃ t job, c.world.jobs t = some job ∧ job.dst = file) ∨
    file ∉ c.world.used ∧ c.world.folder file = none

/-- A new temporary file has a name that was never used and is not in the folder. -/
theorem Handle.unseen {w w' : World St DB} {suffix : String} {file : Path}
    (hh : Handle P t w (.tempFile suffix) (.ok file) w') :
    file ∉ w.used ∧ w.folder file = none := by
  cases hh with
  | tempFile hf hu => exact ⟨hu, hf⟩

theorem Service.Names.of_same (hk : ∀ t, c.Keeps c' t) (hu : c'.world.used = c.world.used)
    (hj : ∀ {t job}, c'.world.jobs t = some job →
      job.dst ∈ c.files t ∨ ∃ job', c.world.jobs t = some job' ∧ job'.dst = job.dst)
    (hf : ∀ file, c'.world.folder file = c.world.folder file ∨
      ∃ t job, c.world.jobs t = some job ∧ job.dst = file) : c.Names c' where
  used hm := by rwa [hu]
  files {t _} hm := by
    rw [(hk t).2.2] at hm
    exact .inl hm
  jobs := hj
  folder file := (hf file).imp_right fun h => .inr (.inl h)

theorem Service.Change.names (hch : c.Change P c') : c.Names c' := by
  cases hch with
  | quiet d hw hk =>
    refine .of_same hk (by rw [hw]) ?_ fun _ => .inl (by rw [hw])
    intro t job hj
    rw [hw] at hj
    exact .inr ⟨job, hj, rfl⟩
  | job t hj hk =>
    obtain ⟨src, dst, stage, stage', hold, hnew, hpaths⟩ := hj.paths
    refine .of_same hk hj.frame.2.2.2.1 ?_ ?_
    · intro t' job hjob
      by_cases ht : t' = t
      · subst ht
        rw [hnew, Option.some.injEq] at hjob
        exact .inr ⟨_, hold, by rw [← hjob]⟩
      · rw [hj.frame.2.2.2.2 t' ht] at hjob
        exact .inr ⟨job, hjob, rfl⟩
    · intro file
      by_cases he : file = dst
      · exact .inr ⟨t, _, hold, he.symm⟩
      · exact .inl (hpaths file he)
  | start t hw _ hd _ hk =>
    refine .of_same hk (by rw [hw]; rfl) ?_ fun _ => .inl (by rw [hw]; rfl)
    intro t' job hjob
    rw [hw] at hjob
    by_cases ht : t' = t
    · subst ht
      rw [World.setJob_self, Option.some.injEq] at hjob
      exact .inl (hjob ▸ hd)
    · rw [World.setJob_of_ne _ _ ht] at hjob
      exact .inr ⟨job, hjob, rfl⟩
  | abandon t hw ho hn hk =>
    refine ⟨fun hm => by rwa [hw], ?_, fun hj => ?_, ?_⟩
    · intro t' file hm
      by_cases ht : t' = t
      · rw [ht, hn.2.2] at hm
        cases hm
      · exact .inl ((hk t' ht).2.2 ▸ hm)
    · rw [hw] at hj
      exact .inr ⟨_, hj, rfl⟩
    · intro file
      by_cases hf : file ∈ owned (c.events t)
      · exact .inr (.inl ⟨t, ho ▸ hf⟩)
      · exact .inl (by rw [hw]; exact if_neg hf)
  | reply t ev hh hd ho hn hk =>
    have hnew : ∀ {file}, file ∈ owned (c.events t ++ [ev]) →
        file ∈ c.files t ∨ file ∉ c.world.used ∧ c.world.folder file = none := by
      intro file hm
      rcases owned_snoc_mem hm with hm | ⟨suffix, rfl⟩
      · exact .inl (ho.2 ▸ hm)
      · exact .inr hh.unseen
    refine ⟨hh.used_mono, ?_, fun hj => ?_, ?_⟩
    · intro t' file hm
      by_cases ht : t' = t
      · rw [ht, hn.2.2, hn.1] at hm
        exact ht ▸ hnew hm
      · exact .inl ((hk t' ht).2.2 ▸ hm)
    · rw [hh.jobs_eq] at hj
      exact .inr ⟨_, hj, rfl⟩
    · intro file
      by_cases ht : ev.call.touched ev.reply = some file
      · rcases hh.touched_owned hd ht with hm | rfl
        · rcases hnew hm with hm | hm
          · exact .inr (.inl ⟨t, hm⟩)
          · exact .inr (.inr (.inr hm))
        · exact .inr (.inl ⟨t, ho.2 ▸ hd⟩)
      · exact .inl (hh.folder_eq ht)

/-- What was in the folder at the start stays as it is, in any run: no operation has such a file,
and no decompression writes to one. -/
structure Service.Apart (w₀ : World St DB) (c : Service St DB) : Prop where
  kept : w₀.folder file ≠ none → c.world.folder file = w₀.folder file
  fresh : file ∈ c.files t → w₀.folder file = none
  jobs : c.world.jobs t = some job → w₀.folder job.dst = none

theorem Service.Apart.step {w₀ : World St DB} (hi : c.Apart w₀) (hn : c.Names c') :
    c'.Apart w₀ where
  kept {file} hf := by
    rcases hn.folder file with he | ⟨t, hm⟩ | ⟨t, job, hj, rfl⟩ | ⟨_, hnone⟩
    · exact he.trans (hi.kept hf)
    · exact absurd (hi.fresh hm) hf
    · exact absurd (hi.jobs hj) hf
    · exact absurd ((hi.kept hf).symm.trans hnone) hf
  fresh {t file} hm := by
    rcases hn.files hm with hm | ⟨_, hnone⟩
    · exact hi.fresh hm
    · by_contra hf
      exact hf ((hi.kept hf).symm.trans hnone)
  jobs hj := by
    rcases hn.jobs hj with hm | ⟨job', hold, hdst⟩
    · exact hi.fresh hm
    · exact hdst ▸ hi.jobs hold

/-- The name of a temporary file that was removed and that nobody has any more. -/
structure Service.Forgotten (c : Service St DB) (file : Path) : Prop where
  used : file ∈ c.world.used
  folder : c.world.folder file = none
  files : ∀ t, file ∉ c.files t
  jobs : c.world.jobs t = some job → job.dst ≠ file

/-- Such a name does not come back. -/
theorem Service.Forgotten.step (hf : c.Forgotten file) (hn : c.Names c') : c'.Forgotten file where
  used := hn.used hf.used
  folder := by
    rcases hn.folder file with he | ⟨t, hm⟩ | ⟨t, job, hj, hdst⟩ | ⟨hu, _⟩
    · exact he.trans hf.folder
    · exact absurd hm (hf.files t)
    · exact absurd hdst (hf.jobs hj)
    · exact absurd hf.used hu
  files t hm := by
    rcases hn.files hm with hm | ⟨hu, _⟩
    · exact hf.files t hm
    · exact hu hf.used
  jobs {t job} hj := by
    rcases hn.jobs hj with hm | ⟨job', hold, hdst⟩
    · rintro rfl
      exact hf.files t hm
    · exact hdst ▸ hf.jobs hold

/-- The destructors of an operation that waits for a decompression remove its source for good. -/
theorem Service.Decompressing.forgotten {x' : Client St DB} (hc : c₀.Initial)
    (hr : Service.Steps P c₀ c) (hn : c.Names c') (hd : c.Decompressing t src dst)
    (hj : c.world.jobs t = some ⟨src, dst, stage⟩) (hx' : c'.tasks t = some x')
    (hp' : x'.phase = .dropped) (hw : c'.world = c.world.abandon t (c.events t)) :
    c'.Forgotten src := by
  have hsd := sound_of_steps hc hr
  obtain ⟨hsrc, _, hne⟩ := hd.files hc hr
  refine ⟨hn.used (hsd.used t src hsrc), ?_, ?_, ?_⟩
  · obtain ⟨x, _, hx, hp, _⟩ := hd
    rw [hw]
    apply if_pos
    simpa [Service.files, Service.events, hx, hp] using hsrc
  · intro t' hm
    rcases hn.files hm with hold | ⟨hu, _⟩
    · rw [hsd.disjoint t' t src hold hsrc, Service.files, hx'] at hm
      simp [hp'] at hm
    · exact hu (hsd.used t src hsrc)
  · intro t' job hjob he
    rw [hw] at hjob
    have ht : t = t' := (hsd.job t' job hjob).2.2.2 t (he ▸ hsrc)
    subst ht
    have hsame := Option.some.inj (hj.symm.trans hjob)
    exact hne (by rw [← he, ← hsame])

/-- A decompression that an operation left behind before it opened its source finds none. -/
def Service.Shut (c : Service St DB) : Prop :=
  ∀ t x src dst, c.tasks t = some x → x.phase = .dropped →
    c.world.jobs t = some ⟨src, dst, .queued⟩ → c.Forgotten src

/-- Only the drop of an operation makes it a dropped one. -/
theorem move_dropped {w w' : World St DB} {x x' : Client St DB}
    (hm : Move (machine P) t w x w' x' tr) (hp' : x'.phase = .dropped) :
    (x.phase = .waiting ∨ x.phase = .answered) ∧ w' = w.abandon t x.events := by
  cases hm with
  | drop hp => exact ⟨hp, rfl⟩
  | _ => cases hp'

theorem Service.Shut.step (hc : c₀.Initial) (hr : Service.Steps P c₀ c) (hi : c.Shut)
    (hs : Service.Step P c c') : c'.Shut := by
  intro t x' src dst hx' hp' hj
  have hn := (step_change hc hr hs).names
  cases step_view hc hr hs t with
  | other ht hjobs _ => exact (hi t x' src dst (ht ▸ hx') hp' (hjobs ▸ hj)).step hn
  | job _ hjob =>
    generalize c'.world = w' at hj hjob
    cases hjob <;> cases (World.setJob_self ..).symm.trans hj
  | spawn q _ hy' =>
    rw [hy', Option.some.injEq] at hx'
    subst hx'
    cases hp'
  | @move x y' w tr hx hy' hw hm =>
    rw [hx', Option.some.injEq] at hy'
    subst hy'
    obtain ⟨hp, rfl⟩ := move_dropped hm hp'
    have hold : c.world.jobs t = some ⟨src, dst, .queued⟩ := by rwa [hw] at hj
    -- the task is not over, so its operation waited for it
    rcases (blocking_of_steps hc hr).owner hold with ⟨r, he⟩ | hd | ⟨y, hy, hdrop⟩
    · cases he
    · refine hd.forgotten hc hr hn hold hx' hp' ?_
      rw [hw, Service.events, hx]
    · rw [hx, Option.some.injEq] at hy
      rw [hy, hdrop] at hp
      rcases hp with hp | hp <;> cases hp

theorem shut_of_steps (hc : c₀.Initial) (hr : Service.Steps P c₀ c) : c.Shut := by
  induction hr with
  | refl =>
    intro t x _ _ hx
    rw [hc.pool.1 t] at hx
    cases hx
  | tail hr hs ih => exact ih.step hc hr hs

/-- No operation was dropped that has left behind a decompression which creates its file next. -/
def Service.Careful (c : Service St DB) : Prop :=
  ∀ t x dst, c.tasks t = some x → x.phase = .dropped → ¬ c.Creating t dst

theorem Service.Careful.step (hc : c₀.Initial) (hr : Service.Steps P c₀ c) (hi : c.Careful)
    (hs : Service.Step P c c') (hd : ∀ t dst, c.Drops c' t → ¬ c.Creating t dst) :
    c'.Careful := by
  rintro t x' dst hx' hp' ⟨src, input, hj⟩
  cases step_view hc hr hs t with
  | other ht hjobs _ => exact hi t x' dst (ht ▸ hx') hp' ⟨src, input, hjobs ▸ hj⟩
  | job ht hjob =>
    have hshut := shut_of_steps hc hr
    generalize c'.world = w' at hj hjob
    cases hjob with
    | openOk hq hf =>
      cases (World.setJob_self ..).symm.trans hj
      rw [(hshut t x' _ _ (ht ▸ hx') hp' hq).folder] at hf
      cases hf
    | create | decode | writeFail | fail => cases (World.setJob_self ..).symm.trans hj
  | spawn q _ hy' =>
    rw [hy', Option.some.injEq] at hx'
    subst hx'
    cases hp'
  | @move x y' w tr hx hy' hw hm =>
    rw [hx', Option.some.injEq] at hy'
    subst hy'
    obtain ⟨hp, rfl⟩ := move_dropped hm hp'
    rw [hw] at hj
    refine hd t dst ⟨x, x', hx, ?_, hx', hp'⟩ ⟨src, input, hj⟩
    rcases hp with hp | hp <;> simp [hp]

/-- A decompression that does not create its file next brings back no file that is gone. -/
theorem JobStep.unlinked {w w' : World St DB} (hj : JobStep P t w w')
    (hjob : w.jobs t = some ⟨src, dst, stage⟩) (hn : ∀ input, stage ≠ .opened input)
    (hd : w.folder dst = none) : w'.folder dst = none := by
  cases hj with
  | create hold =>
    rw [hjob] at hold
    cases hold
    exact absurd rfl (hn _)
  | decode hold | writeFail hold =>
    rw [hjob] at hold
    cases hold
    exact (World.write_self ..).trans (by rw [hd]; rfl)
  | openOk | fail => exact hd

/-- Beside the files of the operations that go on, the folder is what it was. -/
def Service.Tidy (w₀ : World St DB) (c : Service St DB) : Prop :=
  ∀ file, (∀ t, file ∉ c.files t) → c.world.folder file = w₀.folder file

theorem Service.Tidy.step {w₀ : World St DB} (hc : c₀.Initial) (hr : Service.Steps P c₀ c)
    (ha : c.Apart w₀) (hi : c.Tidy w₀) (hcare : c.Careful) (hs : Service.Step P c c') :
    c'.Tidy w₀ := by
  intro file hfile
  cases step_change hc hr hs with
  | quiet d hw hk | start _ hw _ _ _ hk =>
    rw [hw]
    exact hi file fun t => (hk t).2.2 ▸ hfile t
  | job t hj hk =>
    obtain ⟨src, dst, stage, stage', hold, hnew, hpaths⟩ := hj.paths
    have hrest := hi file fun t => (hk t).2.2 ▸ hfile t
    by_cases he : file = dst
    · subst he
      -- nobody owns the file any more, so its operation was dropped
      rw [ha.jobs hold] at hrest ⊢
      rcases (blocking_of_steps hc hr).owner hold with ⟨r, he⟩ | hd | ⟨x, hx, hp⟩
      · exact absurd he (hj.running hold r)
      · exact absurd (hd.files hc hr).2.1 ((hk t).2.2 ▸ hfile t)
      · refine hj.unlinked hold (fun input he => hcare t x file hx hp ⟨src, input, ?_⟩) hrest
        rw [hold, ← he]
    · rw [hpaths file he, hrest]
  | abandon t hw ho _ hk =>
    rw [hw]
    by_cases hf : file ∈ owned (c.events t)
    · exact (if_pos hf).trans (ha.fresh (ho ▸ hf)).symm
    · refine (if_neg hf).trans (hi file fun t' => ?_)
      by_cases ht : t' = t
      · rwa [ht, ho]
      · exact (hk t' ht).2.2 ▸ hfile t'
  | reply t ev hh hd ho hn hk =>
    have hgone : file ∉ owned (c.events t ++ [ev]) := by
      rw [← hn.1, ← hn.2.2]
      exact hfile t
    by_cases hf : file ∈ c.files t
    · obtain ⟨u, rfl⟩ := owned_snoc_lost (ho.2 ▸ hf) hgone
      rw [ha.fresh hf]
      generalize c'.world = w' at hh
      cases hh with
      | dropFile => exact World.write_self ..
    · rw [hh.folder_eq, hi file]
      · intro t'
        by_cases ht : t' = t
        · rwa [ht]
        · exact (hk t' ht).2.2 ▸ hfile t'
      · intro ht
        rcases hh.touched_owned hd ht with hm | rfl
        · exact hgone hm
        · exact hf (ho.2 ▸ hd)

end FastBackup

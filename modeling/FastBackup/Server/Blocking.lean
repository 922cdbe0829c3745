import FastBackup.Server.Download
import FastBackup.Server.Lock

namespace FastBackup
open Interaction
set_option autoImplicit true

variable {St DB : Type} {P : Ports St DB} {c₀ c c' : Service St DB}

/-- What a step of the service is for operation `t`: it is a step of others, which leaves the files
of `t` alone, or one of its blocking task, or its own. -/
inductive Service.View (P : Ports St DB) (t : Nat) (c c' : Service St DB) : Prop where
  | other (ht : c'.tasks t = c.tasks t) (hj : c'.world.jobs t = c.world.jobs t)
      (hf : ∀ file ∈ c.files t, c'.world.folder file = c.world.folder file)
  | job (ht : c'.tasks t = c.tasks t) (hj : JobStep P t c.world c'.world)
  | spawn (q : Request) (hn : c.tasks t = none) (hx : c'.tasks t = some (.start Request.body q))
      (hw : c'.world = c.world)
  | move (hx : c.tasks t = some x) (hx' : c'.tasks t = some x') (hw : c'.world = w)
      (hm : Move (machine P) t c.world x w x' tr)

theorem step_view (hc : c₀.Initial) (hr : Service.Steps P c₀ c) (hs : Service.Step P c c')
    (t : Nat) : Service.View P t c c' := by
  have hsd := sound_of_steps hc hr
  cases hs with
  | env he =>
    cases he with
    | edit d => exact .other rfl rfl fun _ _ => rfl
    | job t' hj =>
      by_cases ht : t' = t
      · subst ht
        exact .job rfl hj
      · obtain ⟨src, dst, _, _, hold, _, hpaths⟩ := hj.paths
        refine .other rfl (hj.frame.2.2.2.2 t (Ne.symm ht)) fun file hm => hpaths file ?_
        rintro rfl
        exact ht ((hsd.job t' _ hold).2.2.2 t hm).symm
  | spawn t' q hn =>
    by_cases ht : t = t'
    · subst ht
      exact .spawn q hn (Pool.put_self ..) rfl
    · exact .other (Pool.put_of_ne _ _ _ _ ht) rfl fun _ _ => rfl
  | @move x _ _ _ _ t' hx hm =>
    by_cases ht : t = t'
    · subst ht
      exact .move hx (Pool.put_self ..) rfl hm
    have htasks : ∀ x w tr, (c.put t' x w tr).tasks t = c.tasks t := fun _ _ _ =>
      Pool.put_of_ne _ _ _ _ ht
    have hrun := task_runs hc.pool hr t' x hx
    -- the files of the other operation are not those of `t`
    have howned : x.phase ≠ .dropped → x.phase ≠ .released → ∀ file ∈ c.files t,
        file ∉ owned x.events := by
      intro hd hl file hm hm'
      refine ht (hsd.disjoint t t' file hm ?_)
      rw [Service.files, hx]
      simp only [hd, hl, or_self, if_false]
      exact hm'
    have hreply : ∀ {e : Call} {r : e.Reply} {k : e.Reply → Svc Outcome} {w' : World St DB} x' tr,
        x.phase.active = true → x.rest = .call e k → Handle P t' c.world e r w' →
        Service.View P t c (c.put t' x' w' tr) := by
      intro e r k w' x' tr ha hk hh
      rw [hk] at hrun
      have hd : Disciplined x.events e := (disc_body x.op).pre_of_runs hrun
      have hf := howned (by rintro hp; simp [hp, Phase.active] at ha)
        (by rintro hp; simp [hp, Phase.active] at ha)
      exact .other (htasks ..) (congrFun hh.jobs_eq t)
        (hh.files_kept hd (hsd.used t) hf)
    cases hm with
    | now hp hk _ hh | effect hp hk hh => exact hreply _ _ (by rw [hp]; rfl) hk hh
    | resume | finish => exact .other (htasks ..) rfl fun _ _ => rfl
    | @invoke e =>
      cases e with
      | decompress => exact .other (htasks ..) (World.setJob_of_ne _ _ ht) fun _ _ => rfl
      | _ => exact .other (htasks ..) rfl fun _ _ => rfl
    | drop hp =>
      refine .other (htasks ..) rfl fun file hm => if_neg (howned ?_ ?_ file hm)
      · rcases hp with hp | hp <;> simp [hp]
      · rcases hp with hp | hp <;> simp [hp]
    | release hp =>
      exact .other (htasks ..) rfl fun file hm =>
        if_neg (howned (by simp [hp]) (by simp [hp]) file hm)

/-- What the blocking task of an operation that waits for it has done to the two files. -/
def JobOk (P : Ports St DB) (w : World St DB) (src dst : Path) : Stage → Prop
  | .queued => True
  | .opened input => w.folder src = some input
  | .created input => w.folder src = some input ∧ w.folder dst ≠ none
  | .ended r => r = .ok (.ok ()) → ∃ input output, w.folder src = some input ∧
      P.decode input = some output ∧ w.folder dst = some output

theorem JobOk.congr {w w' : World St DB} {stage : Stage} (hj : JobOk P w src dst stage)
    (hs : w'.folder src = w.folder src) (hd : w'.folder dst = w.folder dst) :
    JobOk P w' src dst stage := by
  cases stage with
  | queued => trivial
  | opened input => exact hs.trans hj
  | created input => exact ⟨hs.trans hj.1, by rw [hd]; exact hj.2⟩
  | ended r =>
    intro hr
    obtain ⟨input, output, hi, ho, hw⟩ := hj hr
    exact ⟨input, output, hs.trans hi, ho, hd.trans hw⟩

/-- A blocking task that is over makes no step. -/
theorem JobStep.running {w w' : World St DB} (hs : JobStep P t w w')
    (hj : w.jobs t = some ⟨src, dst, stage⟩) (r) : stage ≠ .ended r := by
  rintro rfl
  cases hs with
  | openOk hold | create hold | decode hold | writeFail hold =>
    rw [hj] at hold
    cases hold
  | fail hold hn =>
    rw [hj] at hold
    cases hold
    exact hn r rfl

theorem JobOk.step {w w' : World St DB} {stage : Stage} (hj : JobOk P w src dst stage)
    (hjob : w.jobs t = some ⟨src, dst, stage⟩) (hn : src ≠ dst) (hs : JobStep P t w w') :
    ∃ stage', w'.jobs t = some ⟨src, dst, stage'⟩ ∧ JobOk P w' src dst stage' := by
  cases hs with
  | openOk hold hf =>
    rw [hjob] at hold
    cases hold
    exact ⟨_, World.setJob_self .., hf⟩
  | create hold =>
    rw [hjob] at hold
    cases hold
    refine ⟨_, World.setJob_self .., (World.write_of_ne hn).trans hj, fun he => ?_⟩
    cases (World.write_self ..).symm.trans he
  | decode hold hd =>
    rw [hjob] at hold
    cases hold
    obtain ⟨b, hb⟩ := Option.ne_none_iff_exists'.1 hj.2
    refine ⟨_, World.setJob_self .., fun _ => ⟨_, _, (World.write_of_ne hn).trans hj.1, hd, ?_⟩⟩
    exact (World.write_self ..).trans (by rw [hb]; rfl)
  | writeFail hold =>
    rw [hjob] at hold
    cases hold
    exact ⟨_, World.setJob_self .., fun hr => by cases hr⟩
  | fail hold _ r hr =>
    rw [hjob] at hold
    cases hold
    exact ⟨_, World.setJob_self .., fun hr' => absurd hr' hr⟩

/-- Operation `t` waits for its decompression of `src` to `dst`. -/
def Service.Decompressing (c : Service St DB) (t : Nat) (src dst : Path) : Prop :=
  ∃ x k, c.tasks t = some x ∧ x.phase = .waiting ∧ x.rest = .call (.decompress src dst) k

/-- An operation decompresses from one of its files to another one. -/
theorem Service.Decompressing.files (hc : c₀.Initial) (hr : Service.Steps P c₀ c)
    (hd : c.Decompressing t src dst) : src ∈ c.files t ∧ dst ∈ c.files t ∧ src ≠ dst := by
  obtain ⟨x, k, hx, hp, hk⟩ := hd
  have hrun := task_runs hc.pool hr t x hx
  rw [hk] at hrun
  have hf : c.files t = [dst, src] := by
    obtain ⟨target, info, _, he⟩ := decompress_shape hrun
    rw [Service.files, hx]
    simp only [hp, he, reduceCtorEq, or_self, if_false]
    cases target <;> simp [beforeDecompress, fetched, resolved, owned]
  have hn := (sound_of_steps hc hr).nodup t
  rw [hf] at hn ⊢
  simp only [List.nodup_cons, List.mem_singleton] at hn
  exact ⟨by simp, by simp, fun he => hn.1 he.symm⟩

/-- In every run: an operation that waits for a decompression has started it, and one that is not
over belongs to an operation that waits for it or was dropped. -/
structure Service.Blocking (P : Ports St DB) (c : Service St DB) : Prop where
  started : c.Decompressing t src dst → ∃ stage, c.world.jobs t = some ⟨src, dst, stage⟩ ∧
    JobOk P c.world src dst stage
  owner : c.world.jobs t = some job → (∃ r, job.stage = .ended r) ∨
    c.Decompressing t job.src job.dst ∨ ∃ x, c.tasks t = some x ∧ x.phase = .dropped

theorem Service.Blocking.step (hc : c₀.Initial) (hr : Service.Steps P c₀ c)
    (hb : c.Blocking P) (hs : Service.Step P c c') : c'.Blocking P where
  started {t src dst} hd := by
    cases step_view hc hr hs t with
    | other ht hj hf =>
      have hd' : c.Decompressing t src dst := by rwa [Service.Decompressing, ht] at hd
      obtain ⟨hsrc, hdst, _⟩ := hd'.files hc hr
      obtain ⟨stage, hjob, hok⟩ := hb.started hd'
      exact ⟨stage, hj.trans hjob, hok.congr (hf src hsrc) (hf dst hdst)⟩
    | job ht hj =>
      have hd' : c.Decompressing t src dst := by rwa [Service.Decompressing, ht] at hd
      obtain ⟨stage, hjob, hok⟩ := hb.started hd'
      exact hok.step hjob (hd'.files hc hr).2.2 hj
    | spawn q hn hx hw =>
      obtain ⟨x, k, hx', hp, _⟩ := hd
      rw [hx] at hx'
      cases hx'
      cases hp
    | move hx hx' hw hm =>
      obtain ⟨x, k, hx'', hp, hk⟩ := hd
      rw [hx'] at hx''
      cases hx''
      cases hm with
      | invoke _ hq =>
        rw [hq] at hk
        cases hk
        rw [hw]
        exact ⟨.queued, World.setJob_self .., trivial⟩
      | now | effect | resume | drop | finish | release => cases hp
  owner {t job} hjob := by
    cases step_view hc hr hs t with
    | other ht hj hf =>
      rw [Service.Decompressing, ht]
      exact hb.owner (hj.symm.trans hjob)
    | job ht hj =>
      obtain ⟨src, dst, stage, stage', hold, hnew, _⟩ := hj.paths
      rw [hnew, Option.some.injEq] at hjob
      subst hjob
      rw [Service.Decompressing, ht]
      rcases hb.owner hold with ⟨r, hended⟩ | h
      · exact absurd hended (hj.running hold r)
      · exact .inr h
    | spawn q hn hx hw =>
      rw [hw] at hjob
      rcases hb.owner hjob with h | ⟨x, _, hx', _⟩ | ⟨x, hx', _⟩
      · exact .inl h
      · rw [hn] at hx'
        cases hx'
      · rw [hn] at hx'
        cases hx'
    | @move x _ _ _ hx hx' hw hm =>
      rw [hw] at hjob
      have hidle : x.phase ≠ .waiting → x.phase ≠ .dropped → c.world.jobs t = some job →
          ∃ r, job.stage = .ended r := by
        intro hw hd hold
        rcases hb.owner hold with h | ⟨y, _, hy, hp, _⟩ | ⟨y, hy, hp⟩
        · exact h
        · rw [hx, Option.some.injEq] at hy
          exact absurd (hy ▸ hp) hw
        · rw [hx, Option.some.injEq] at hy
          exact absurd (hy ▸ hp) hd
      cases hm with
      | now hp _ _ hh =>
        rw [Handle.jobs_eq hh] at hjob
        exact .inl (hidle (by simp [hp]) (by simp [hp]) hjob)
      | resume hp => exact .inl (hidle (by simp [hp]) (by simp [hp]) hjob)
      | finish hp => exact .inl (hidle (by simp [hp]) (by simp [hp]) hjob)
      | release hp => exact .inl (hidle (by simp [hp]) (by simp [hp]) hjob)
      | drop => exact .inr (.inr ⟨_, hx', rfl⟩)
      | effect hp hq hh =>
        have hold := hjob
        rw [Handle.jobs_eq hh] at hold
        rcases hb.owner hold with h | ⟨y, _, hy, _, hk⟩ | ⟨y, hy, hp'⟩
        · exact .inl h
        · -- the reply is the end of the blocking task
          rw [hx, Option.some.injEq] at hy
          subst hy
          rw [hq] at hk
          cases hk
          cases hh with
          | decompress hended =>
            rw [hold] at hended
            exact .inl ⟨_, congrArg Job.stage (Option.some.inj hended)⟩
        · rw [hx, Option.some.injEq] at hy
          rw [← hy, hp] at hp'
          cases hp'
      | @invoke e _ _ k hp hq ha =>
        cases e with
        | decompress src dst =>
          have he := (World.setJob_self ..).symm.trans hjob
          cases he
          exact .inr (.inl ⟨_, k, hx', rfl, hq⟩)
        | _ => exact .inl (hidle (by simp [hp]) (by simp [hp]) hjob)

theorem blocking_of_steps (hc : c₀.Initial) (hr : Service.Steps P c₀ c) : c.Blocking P := by
  induction hr with
  | refl =>
    constructor
    · rintro t src dst ⟨x, k, hx, _⟩
      rw [hc.pool.1 t] at hx
      cases hx
    · intro t job hj
      rw [hc.jobs t] at hj
      cases hj
  | tail hr hs ih => exact ih.step hc hr hs

/-- A decompression that was reported as done has decoded one file into the other. -/
theorem decompressed_entry {x : Client St DB} (hc : c₀.Initial) (hr : Service.Steps P c₀ c)
    (hx : c.tasks t = some x) (hen : en ∈ x.hist)
    (he : en.event = ⟨.decompress src dst, .ok (.ok ())⟩) : ∃ input output,
      en.pre.folder src = some input ∧ P.decode input = some output ∧
      en.pre.folder dst = some output := by
  let I (_ : Service St DB) (_ : Nat) (en : Entry (World St DB) Call Call.Reply) : Prop :=
    en.event = ⟨.decompress src dst, .ok (.ok ())⟩ → ∃ input output,
      en.pre.folder src = some input ∧ P.decode input = some output ∧
      en.pre.folder dst = some output
  refine entries_invariant I (fun _ _ _ _ _ _ hi => hi) ?_ hc.pool hr t x hx en hen he
  intro c₁ c₂ t x e r k hr hs hx ha hw hq hh he
  generalize c₂.world = w₂ at hh
  cases he
  obtain ⟨stage, hjob, hok⟩ := (blocking_of_steps hc hr).started ⟨x, k, hx, hw rfl, hq⟩
  cases hh with
  | decompress hended =>
    rw [hjob] at hended
    cases hended
    exact hok rfl

/-- While an operation goes on, nobody else changes its files, and its own blocking task changes
only the one it writes to. -/
def FilesKept (_ : Nat) (h : Hist St DB) (w w' : World St DB) : Prop :=
  ∀ file ∈ owned (h.map Entry.event),
    (∀ target info src, h.map Entry.event ≠ beforeDecompress target info src file) →
    w'.folder file = w.folder file

theorem files_rely (hc : c₀.Initial) : Rely (machine P) Request.body c₀ (@FilesKept St DB) where
  refl _ _ _ := rfl
  trans h₁ h₂ file hm hn := (h₂ file hm hn).trans (h₁ file hm hn)
  step {c c' t x x'} hr hs hx hx' ha ha' hhist file hm hn := by
    have hfiles : Service.files c t = owned (x.hist.map Entry.event) := by
      rw [Service.files, hx]
      exact if_neg fun hp => by rcases hp with hp | hp <;> rw [hp] at ha <;> cases ha
    cases step_view hc hr hs t with
    | other _ _ hf => exact hf file (hfiles ▸ hm)
    | job _ hj =>
      obtain ⟨src, dst, stage, _, hold, _, hpaths⟩ := hj.paths
      apply hpaths
      rintro rfl
      rcases (blocking_of_steps hc hr).owner hold with ⟨r, he⟩ | ⟨y, k, hy, _, hk⟩ | ⟨y, hy, hp⟩
      · exact hj.running hold r he
      · rw [hx, Option.some.injEq] at hy
        subst hy
        have hrun := task_runs hc.pool hr t x hx
        rw [hk] at hrun
        obtain ⟨target, info, _, he⟩ := decompress_shape hrun
        exact hn target info src he
      · rw [hx, Option.some.injEq] at hy
        rw [← hy] at hp
        rw [hp] at ha
        cases ha
    | spawn _ hnone =>
      rw [hx] at hnone
      cases hnone
    | @move y y' _ _ hy hy' hw hmove =>
      rw [hx, Option.some.injEq] at hy
      rw [hx', Option.some.injEq] at hy'
      subst hy hy'
      rw [hw]
      cases hmove with
      | now | effect => simp [Task.reply] at hhist
      | @invoke e => cases e <;> rfl
      | resume => rfl
      | drop | finish | release => cases ha'

end FastBackup

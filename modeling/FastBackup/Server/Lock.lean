import FastBackup.Interaction.Rely
import FastBackup.Server.World

namespace FastBackup
open Interaction
set_option autoImplicit true

variable {St DB : Type} {P : Ports St DB} {c₀ c c' : Service St DB}

/-- Before any operation: the lock is free and no blocking task runs. -/
structure Service.Initial (c : Service St DB) : Prop where
  pool : Pool.Initial c
  lock : c.world.lock = none
  jobs : ∀ t, c.world.jobs t = none

/-- The calls that operation `t` completed. -/
def Service.events (c : Service St DB) (t : Nat) : List Ev :=
  match c.tasks t with
  | some x => x.events
  | none => []

/-- Whether operation `t` has the guard of the write lock. -/
def Service.held (c : Service St DB) (t : Nat) : Bool :=
  match c.tasks t with
  | some x => x.phase.active && holding x.events
  | none => false

/-- The temporary files that operation `t`, or the caller it returned one to, has to remove. -/
def Service.files (c : Service St DB) (t : Nat) : List Path :=
  match c.tasks t with
  | some x => if x.phase = .dropped ∨ x.phase = .released then [] else owned x.events
  | none => []

theorem Service.files_live {x : Client St DB} (hx : c.tasks t = some x)
    (hp : ¬ (x.phase = .dropped ∨ x.phase = .released)) : c.files t = owned x.events := by
  rw [Service.files, hx]
  exact if_neg hp

theorem Service.files_gone {x : Client St DB} (hx : c.tasks t = some x)
    (hp : x.phase = .dropped ∨ x.phase = .released) : c.files t = [] := by
  rw [Service.files, hx]
  exact if_pos hp

theorem Service.files_active {x : Client St DB} (hx : c.tasks t = some x)
    (ha : x.phase.active = true) : c.files t = owned x.events := by
  apply Service.files_live hx
  rintro (hp | hp) <;> rw [hp] at ha <;> cases ha

/-- Operation `t` has the same history, guard and files in `c'` as in `c`. -/
abbrev Service.Keeps (c c' : Service St DB) (t : Nat) : Prop :=
  c'.events t = c.events t ∧ c'.held t = c.held t ∧ c'.files t = c.files t

/-- All that a step can do to the world, the guards and the files. -/
inductive Service.Change (P : Ports St DB) (c c' : Service St DB) : Prop where
  | quiet (d : DB) (hw : c'.world = { c.world with db := d })
      (hk : ∀ t, c.Keeps c' t)
  | job (t : Nat) (hj : JobStep P t c.world c'.world)
      (hk : ∀ t, c.Keeps c' t)
  | start (t : Nat) (hw : c'.world = c.world.setJob t ⟨src, dst, .queued⟩)
      (hh : c.held t = false) (hd : dst ∈ c.files t) (he : c.events t ≠ [])
      (hk : ∀ t, c.Keeps c' t)
  | reply (t : Nat) (ev : Ev) (hh : Handle P t c.world ev.call ev.reply c'.world)
      (hd : Disciplined (c.events t) ev.call)
      (ho : c.held t = holding (c.events t) ∧ c.files t = owned (c.events t))
      (hn : c'.events t = c.events t ++ [ev] ∧ c'.held t = holding (c'.events t) ∧
        c'.files t = owned (c'.events t))
      (hk : ∀ t', t' ≠ t → c.Keeps c' t')
  | abandon (t : Nat) (hw : c'.world = c.world.abandon t (c.events t))
      (ho : c.files t = owned (c.events t))
      (hn : c'.events t = c.events t ∧ c'.held t = false ∧ c'.files t = [])
      (hk : ∀ t', t' ≠ t → c.Keeps c' t')

theorem Service.put_other (c : Service St DB) (x : Client St DB) (ht : t' ≠ t) :
    c.Keeps (c.put t x w tr) t' := by
  simp only [Service.Keeps, Service.events, Service.held, Service.files,
    Pool.put_of_ne _ _ _ _ ht, and_self]

/-- A step that leaves the history of `t`, its guard and its files as they are. -/
theorem Service.put_same {c : Service St DB} {x' : Client St DB} (hx : c.tasks t = some x)
    (he : x'.events = x.events)
    (hh : (x'.phase.active && holding x'.events) = (x.phase.active && holding x.events))
    (hf : (x'.phase = .dropped ∨ x'.phase = .released) ↔
      (x.phase = .dropped ∨ x.phase = .released)) (t' : Nat) :
    c.Keeps (c.put t x' w tr) t' := by
  by_cases ht : t' = t
  · subst ht
    rw [he] at hh
    simp only [Service.Keeps, Service.events, Service.held, Service.files, Pool.put_self, hx, he,
      hh, hf, and_self]
  · exact Service.put_other c x' ht

/-- The reply to a call of `t`. -/
theorem Service.put_reply {c : Service St DB} {x : Client St DB} {r : e.Reply}
    (hx : c.tasks t = some x) (ha : x.phase.active = true) (hp : phase.active = true)
    (hd : Disciplined x.events e) (hh : Handle P t c.world e r w) (rest : Svc Outcome) :
    c.Change P (c.put t (x.reply e r c.world w rest phase) w tr) := by
  have hstays : ∀ {p : Phase}, p.active = true → ¬(p = .dropped ∨ p = .released) := by
    rintro p hp (rfl | rfl) <;> cases hp
  refine .reply t ⟨e, r⟩ hh ?_ ?_ ?_ fun t' ht => Service.put_other c _ ht
  · rw [Service.events, hx]
    exact hd
  · simp only [Service.events, Service.held, Service.files, hx, ha, hstays ha, Bool.true_and,
      if_false, and_self]
  · simp only [Service.events, Service.held, Service.files, Pool.put_self, hx, Task.events_reply]
    simp only [Task.reply, hp, hstays hp, Bool.true_and, if_false, and_self]

/-- Each step of a run is a `Change`. -/
theorem step_change (hc : c₀.Initial) (hr : Service.Steps P c₀ c) (hs : Service.Step P c c') :
    c.Change P c' := by
  cases hs with
  | env he =>
    cases he with
    | edit d => exact .quiet d rfl fun t => ⟨rfl, rfl, rfl⟩
    | job t hj => exact .job t hj fun t => ⟨rfl, rfl, rfl⟩
  | spawn t q hn =>
    refine .quiet c.world.db rfl fun t' => ?_
    by_cases ht : t' = t
    · subst ht
      simp only [Service.Keeps, Service.events, Service.held, Service.files, Pool.put_self, hn]
      exact ⟨rfl, rfl, rfl⟩
    · exact Service.put_other c _ ht
  | @move x _ _ _ _ t hx hm =>
    have hrun := task_runs hc.pool hr t x hx
    have hev : c.events t = x.events := by rw [Service.events, hx]
    cases hm with
    | now hp hq ha hh =>
      rw [hq] at hrun
      have hd := (disc_body x.op).pre_of_runs hrun
      exact Service.put_reply hx (by rw [hp]; rfl) rfl hd hh _
    | effect hp hq hh =>
      rw [hq] at hrun
      have hd := (disc_body x.op).pre_of_runs hrun
      exact Service.put_reply hx (by rw [hp]; rfl) rfl hd hh _
    | @invoke e _ _ k hp hq ha =>
      rw [hq] at hrun
      have hk : ∀ t', c.Keeps
          (c.put t { x with phase := .waiting } (World.invoke c.world t e) [(t, e)]) t' :=
        Service.put_same hx rfl (by rw [hp]; rfl) (by simp [hp])
      by_cases he : ∃ src dst, e = .decompress src dst
      · obtain ⟨src, dst, rfl⟩ := he
        have hd := (disc_body x.op).pre_of_runs hrun
        refine .start t rfl ?_ ?_ ?_ hk
        · simp [Service.held, hx, hd.1]
        · simpa [Service.files, hx, hp] using hd.2.2
        · intro hn
          rw [hev] at hn
          rw [hn] at hd
          cases hd.2.2
      · have hw : World.invoke c.world t e = c.world := by
          cases e with
          | decompress src dst => exact absurd ⟨src, dst, rfl⟩ he
          | _ => rfl
        exact .quiet c.world.db hw hk
    | resume hp =>
      exact .quiet c.world.db rfl (Service.put_same hx rfl (by rw [hp]; rfl) (by simp [hp]))
    | finish hp hq =>
      rw [hq] at hrun
      have hd := (disc_body x.op).post_of_runs hrun
      exact .quiet c.world.db rfl
        (Service.put_same hx rfl (by simp [Task.events] at hd ⊢; simp [hd.1]) (by simp [hp]))
    | drop hp =>
      refine .abandon t (by rw [hev]; rfl) ?_ ?_ fun t' ht => Service.put_other c _ ht
      · rcases hp with hp | hp <;> simp [Service.events, Service.files, hx, hp]
      · simp [Service.events, Service.held, Service.files, hx, Phase.active, Task.events]
    | release hp =>
      refine .abandon t (by rw [hev]; rfl) ?_ ?_ fun t' ht => Service.put_other c _ ht
      · simp [Service.events, Service.files, hx, hp]
      · simp [Service.events, Service.held, Service.files, hx, Phase.active, Task.events]

/-- In every run: the lock is held by the operation that has the guard, temporary files belong to
one operation each, and a blocking task writes to a file of its own operation only. -/
structure Service.Sound (c : Service St DB) : Prop where
  lock : ∀ t, c.world.lock = some t ↔ c.held t = true
  used : ∀ t file, file ∈ c.files t → file ∈ c.world.used
  disjoint : ∀ t t' file, file ∈ c.files t → file ∈ c.files t' → t = t'
  nodup : ∀ t, (c.files t).Nodup
  job : ∀ t job, c.world.jobs t = some job → c.events t ≠ [] ∧ c.held t = false ∧
    job.dst ∈ c.world.used ∧ ∀ t', job.dst ∈ c.files t' → t' = t

theorem owned_snoc_mem (hf : file ∈ owned (h ++ [ev])) :
    file ∈ owned h ∨ ∃ suffix, ev = ⟨.tempFile suffix, .ok file⟩ := by
  rw [owned_snoc] at hf
  split at hf
  · rcases List.mem_cons.1 hf with rfl | hf
    · exact .inr ⟨_, rfl⟩
    · exact .inl hf
  · exact .inl (List.mem_of_mem_erase hf)
  · exact .inl hf

theorem Handle.fresh {w w' : World St DB} {suffix : String} {file : Path}
    (hh : Handle P t w (.tempFile suffix) (.ok file) w') :
    file ∉ w.used ∧ w'.used = file :: w.used := by
  cases hh with
  | tempFile hf hu => exact ⟨hu, rfl⟩

theorem owned_snoc_nodup {w w' : World St DB} {ev : Ev}
    (hh : Handle P t w ev.call ev.reply w') (hu : ∀ file ∈ owned h, file ∈ w.used)
    (hn : (owned h).Nodup) : (owned (h ++ [ev])).Nodup := by
  rw [owned_snoc]
  split
  · exact List.nodup_cons.2 ⟨fun hf => hh.fresh.1 (hu _ hf), hn⟩
  · exact hn.erase _
  · exact hn

/-- The lock after a reply, when it was in step with the guards before. -/
theorem lock_reply {w w' : World St DB} {ev : Ev} {held held' : Nat → Bool}
    (hh : Handle P t w ev.call ev.reply w') (hd : Disciplined h ev.call)
    (hl : ∀ t', w.lock = some t' ↔ held t' = true)
    (ht : held t = holding h) (ht' : held' t = holding (h ++ [ev]))
    (hk : ∀ t', t' ≠ t → held' t' = held t') :
    ∀ t', w'.lock = some t' ↔ held' t' = true := by
  obtain ⟨e, r⟩ := ev
  intro t'
  by_cases hq : e ≠ .tryLock ∧ e ≠ .unlock
  · have hs : holding (h ++ [⟨e, r⟩]) = holding h := by
      rw [holding_snoc]
      cases e with
      | tryLock => exact absurd rfl hq.1
      | unlock => exact absurd rfl hq.2
      | _ => rfl
    rw [hh.lock_eq hq.1 hq.2, hl]
    by_cases he : t' = t
    · rw [he, ht', hs, ht]
    · rw [hk t' he]
  · cases hh with
    | locked hn =>
      by_cases he : t' = t
      · rw [he, ht', holding_snoc]
        simp
      · rw [hk t' he, ← hl, hn]
        simpa using fun h => he h.symm
    | busy hb =>
      have hf : held t = false := by rw [ht, show h = [] from hd]; rfl
      by_cases he : t' = t
      · rw [he, ht', holding_snoc, hl, hf]
      · rw [hk t' he, hl]
    | unlock =>
      have hb : w.lock = some t := by rw [hl, ht]; exact hd
      by_cases he : t' = t
      · rw [he, ht', holding_snoc]
        simp
      · rw [hk t' he, ← hl, hb]
        simpa using fun h => he h.symm
    | _ => exact absurd ⟨by simp, by simp⟩ hq

/-- The invariant does not depend on the database, and for the rest only on the guards and files. -/
theorem Service.Sound.of_same (hs : c.Sound)
    (hk : ∀ t, c.Keeps c' t)
    (hl : c'.world.lock = c.world.lock) (hu : c'.world.used = c.world.used)
    (hj : ∀ t job, c'.world.jobs t = some job → ∃ job', job'.dst = job.dst ∧
      (c.world.jobs t = some job' ∨
        c.held t = false ∧ c.events t ≠ [] ∧ job'.dst ∈ c.files t)) : c'.Sound where
  lock t := by rw [hl, (hk t).2.1, hs.lock]
  used t file hf := by
    rw [(hk t).2.2] at hf
    rw [hu]
    exact hs.used t file hf
  disjoint t t' file hf hf' := by
    rw [(hk t).2.2] at hf
    rw [(hk t').2.2] at hf'
    exact hs.disjoint t t' file hf hf'
  nodup t := by rw [(hk t).2.2]; exact hs.nodup t
  job t job hjob := by
    obtain ⟨job', hdst, hold | ⟨hh, he, hf⟩⟩ := hj t job hjob
    · obtain ⟨he, hh, hd, hf⟩ := hs.job t job' hold
      rw [(hk t).1, (hk t).2.1, hu, ← hdst]
      exact ⟨he, hh, hd, fun t' ht' => hf t' (by rwa [(hk t').2.2] at ht')⟩
    · rw [(hk t).1, (hk t).2.1, hu, ← hdst]
      exact ⟨he, hh, hs.used t _ hf, fun t' ht' =>
        hs.disjoint t' t _ (by rwa [(hk t').2.2] at ht') hf⟩

theorem Service.Sound.step (hs : c.Sound) (hch : c.Change P c') : c'.Sound := by
  cases hch with
  | quiet d hw hk =>
    refine hs.of_same hk (by rw [hw]) (by rw [hw]) fun t job hj => ⟨job, rfl, .inl ?_⟩
    rwa [hw] at hj
  | job t hj hk =>
    obtain ⟨_, _, hl, hu, ho⟩ := hj.frame
    obtain ⟨src, dst, st, st', hold, hnew, _⟩ := hj.paths
    refine hs.of_same hk hl hu fun t' job hjob => ?_
    by_cases ht : t' = t
    · subst ht
      rw [hnew, Option.some.injEq] at hjob
      exact ⟨_, by rw [← hjob], .inl hold⟩
    · rw [ho t' ht] at hjob
      exact ⟨job, rfl, .inl hjob⟩
  | @start src dst t hw hh hd he hk =>
    refine hs.of_same hk (by rw [hw]; rfl) (by rw [hw]; rfl) fun t' job hjob => ?_
    rw [hw] at hjob
    by_cases ht : t' = t
    · subst ht
      rw [World.setJob_self, Option.some.injEq] at hjob
      exact ⟨job, rfl, .inr ⟨hh, he, by rw [← hjob]; exact hd⟩⟩
    · rw [World.setJob_of_ne _ _ ht] at hjob
      exact ⟨job, rfl, .inl hjob⟩
  | abandon t hw ho hn hk =>
    have hsub : ∀ t' file, file ∈ c'.files t' → file ∈ c.files t' := by
      intro t' file hf
      by_cases ht : t' = t
      · rw [ht, hn.2.2] at hf
        cases hf
      · rwa [(hk t' ht).2.2] at hf
    refine ⟨?_, ?_, ?_, ?_, ?_⟩
    · intro t'
      rw [hw]
      by_cases ht : t' = t
      · rw [ht, hn.2.1]
        simp only [World.abandon]
        split <;> simp_all
      · rw [(hk t' ht).2.1, ← hs.lock]
        simp only [World.abandon]
        split
        · simp_all [Ne.symm ht]
        · rfl
    · intro t' file hf
      rw [hw]
      exact hs.used t' file (hsub t' file hf)
    · intro t₁ t₂ file h₁ h₂
      exact hs.disjoint t₁ t₂ file (hsub _ _ h₁) (hsub _ _ h₂)
    · intro t'
      by_cases ht : t' = t
      · rw [ht, hn.2.2]
        exact List.nodup_nil
      · rw [(hk t' ht).2.2]
        exact hs.nodup t'
    · intro t' job hj
      rw [hw] at hj
      obtain ⟨he, hh, hu, hf⟩ := hs.job t' job hj
      refine ⟨?_, ?_, by rw [hw]; exact hu, fun t'' ht => hf t'' (hsub _ _ ht)⟩
      · by_cases ht : t' = t
        · rw [ht] at he ⊢
          rwa [hn.1]
        · rwa [(hk t' ht).1]
      · by_cases ht : t' = t
        · rw [ht, hn.2.1]
        · rwa [(hk t' ht).2.1]
  | reply t ev hh hd ho hn hk =>
    have hmem : ∀ t' file, file ∈ c'.files t' →
        file ∈ c.files t' ∨ t' = t ∧ ∃ suffix, ev = ⟨.tempFile suffix, .ok file⟩ := by
      intro t' file hf
      by_cases ht : t' = t
      · rw [ht, hn.2.2, hn.1] at hf
        rw [ht, ho.2]
        rcases owned_snoc_mem hf with h | h
        · exact .inl h
        · exact .inr ⟨rfl, h⟩
      · rw [(hk t' ht).2.2] at hf
        exact .inl hf
    refine ⟨?_, ?_, ?_, ?_, ?_⟩
    · exact lock_reply hh hd hs.lock ho.1 (by rw [hn.2.1, hn.1]) fun t' ht => (hk t' ht).2.1
    · intro t' file hf
      rcases hmem t' file hf with h | ⟨_, suffix, rfl⟩
      · exact hh.used_mono (hs.used t' file h)
      · rw [hh.fresh.2]
        exact List.mem_cons_self ..
    · intro t₁ t₂ file h₁ h₂
      rcases hmem t₁ file h₁ with h₁ | ⟨h₁, suffix, rfl⟩
      · rcases hmem t₂ file h₂ with h₂ | ⟨_, suffix, rfl⟩
        · exact hs.disjoint t₁ t₂ file h₁ h₂
        · exact absurd (hs.used t₁ file h₁) hh.fresh.1
      · rcases hmem t₂ file h₂ with h₂ | ⟨h₂, _⟩
        · exact absurd (hs.used t₂ file h₂) hh.fresh.1
        · rw [h₁, h₂]
    · intro t'
      by_cases ht : t' = t
      · rw [ht, hn.2.2, hn.1]
        refine owned_snoc_nodup hh ?_ (by rw [← ho.2]; exact hs.nodup t)
        intro file hf
        exact hs.used t file (by rwa [ho.2])
      · rw [(hk t' ht).2.2]
        exact hs.nodup t'
    · intro t' job hj
      rw [hh.jobs_eq] at hj
      obtain ⟨he, hheld, hu, hf⟩ := hs.job t' job hj
      refine ⟨?_, ?_, hh.used_mono hu, ?_⟩
      · by_cases ht : t' = t
        · rw [ht, hn.1]
          simp
        · rwa [(hk t' ht).1]
      · by_cases ht : t' = t
        · rw [ht] at he hheld ⊢
          rw [hn.2.1, hn.1]
          exact holding_snoc_false hd he (by rw [← ho.1]; exact hheld)
        · rwa [(hk t' ht).2.1]
      · intro t'' hdst
        rcases hmem t'' _ hdst with h | ⟨_, suffix, rfl⟩
        · exact hf t'' h
        · exact absurd hu hh.fresh.1

theorem Service.Initial.sound (hc : c.Initial) : c.Sound := by
  have he : ∀ t, c.held t = false ∧ c.files t = [] := by
    intro t
    simp only [Service.held, Service.files, hc.pool.1 t, and_self]
  refine ⟨?_, ?_, ?_, ?_, ?_⟩
  · intro t
    simp [hc.lock, (he t).1]
  · intro t file hf
    rw [(he t).2] at hf
    cases hf
  · intro t t' file hf
    rw [(he t).2] at hf
    cases hf
  · intro t
    rw [(he t).2]
    exact List.nodup_nil
  · intro t job hj
    rw [hc.jobs t] at hj
    cases hj

/-- The invariant holds in every reachable state. -/
theorem sound_of_steps (hc : c₀.Initial) (hr : Service.Steps P c₀ c) : c.Sound := by
  induction hr with
  | refl => exact hc.sound
  | tail hr hs ih => exact ih.step (step_change hc hr hs)

abbrev Hist (St DB : Type) := List (Entry (World St DB) Call Call.Reply)

/-- While an operation has the guard, nobody else changes the storage, the lock, or a file of the
operation. -/
def Undisturbed (_ : Nat) (h : Hist St DB) (w w' : World St DB) : Prop :=
  holding (h.map Entry.event) = true → w'.store = w.store ∧ w'.lock = w.lock ∧
    ∀ file ∈ owned (h.map Entry.event), w'.folder file = w.folder file

/-- A call of an operation touches no file that another one has. -/
theorem Handle.files_kept {w w' : World St DB} {e : Call} {r : e.Reply} {files : List Path}
    (hh : Handle P t w e r w') (hd : Disciplined h e)
    (hu : ∀ file ∈ files, file ∈ w.used) (hf : ∀ file ∈ files, file ∉ owned h) :
    ∀ file ∈ files, w'.folder file = w.folder file := by
  intro file hmem
  refine hh.folder_eq fun ht => ?_
  cases hh with
  | tempFile _ hfresh =>
    rw [Call.touched, Option.some.injEq] at ht
    exact hfresh (ht ▸ hu file hmem)
  | dropFile | download | downloadError =>
    rw [Call.touched, Option.some.injEq] at ht
    exact hf file hmem (ht ▸ hd)
  | dump | dumpError =>
    rw [Call.touched, Option.some.injEq] at ht
    exact hf file hmem (ht ▸ hd.2)
  | _ => cases ht

/-- A call that does not write and touches no file of the operation that has the guard. -/
theorem Handle.undisturbed {w w' : World St DB} {ev : Ev} {files : List Path}
    (hh : Handle P t' w ev.call ev.reply w') (hd : Disciplined h ev.call)
    (hn : holding h = false) (hl : w.lock = some t) (hu : ∀ file ∈ files, file ∈ w.used)
    (hf : ∀ file ∈ files, file ∉ owned h) :
    w'.store = w.store ∧ w'.lock = w.lock ∧ ∀ file ∈ files, w'.folder file = w.folder file := by
  have hkept := hh.files_kept hd hu hf
  obtain ⟨e, r⟩ := ev
  refine ⟨hh.store_eq ?_ ?_, ?_, hkept⟩
  · rintro req rfl
    rw [hd.1] at hn
    cases hn
  · rintro id rfl
    rw [show holding h = true from hd] at hn
    cases hn
  · cases hh with
    | locked hnone =>
      rw [hl] at hnone
      cases hnone
    | unlock =>
      rw [show holding h = true from hd] at hn
      cases hn
    | _ => rfl

/-- What happens around an operation with the guard, in every run. -/
theorem guard_rely (hc : c₀.Initial) :
    Rely (machine P) Request.body c₀ (@Undisturbed St DB) where
  refl := fun _ => ⟨rfl, rfl, fun _ _ => rfl⟩
  trans h₁ h₂ hh := by
    obtain ⟨hs, hl, hf⟩ := h₁ hh
    obtain ⟨hs', hl', hf'⟩ := h₂ hh
    exact ⟨hs'.trans hs, hl'.trans hl, fun file hm => (hf' file hm).trans (hf file hm)⟩
  step {c c' t x x'} hr hs hx hx' ha ha' hhist hh := by
    have hsd : Service.Sound c := sound_of_steps hc hr
    have hheld : Service.held c t = true := by
      rw [Service.held, hx]
      simp only [ha, Bool.true_and]
      exact hh
    have hfiles : Service.files c t = owned (x.hist.map Entry.event) := by
      rw [Service.files, hx]
      exact if_neg fun hp => by rcases hp with hp | hp <;> rw [hp] at ha <;> cases ha
    have hlock : c.world.lock = some t := (hsd.lock t).2 hheld
    rw [← hfiles]
    cases step_change hc hr hs with
    | quiet d hw hk => exact ⟨by rw [hw], by rw [hw], fun file _ => by rw [hw]⟩
    | job t' hj hk =>
      obtain ⟨_, hst, hl, _, _⟩ := hj.frame
      obtain ⟨src, dst, st, st', hold, _, hf⟩ := hj.paths
      obtain ⟨_, hnot, _, hmine⟩ := hsd.job t' _ hold
      refine ⟨hst, hl, fun file hm => hf file ?_⟩
      rintro rfl
      rw [← hmine t hm, hheld] at hnot
      cases hnot
    | start t' hw => exact ⟨by rw [hw]; rfl, by rw [hw]; rfl, fun file _ => by rw [hw]; rfl⟩
    | reply t' ev hev hd ho hn hk =>
      have ht : t' ≠ t := by
        rintro rfl
        have he := congrArg List.length hn.1
        simp [Service.events, hx, hx', Task.events, hhist] at he
      have hnot : holding (Service.events c t') = false := by
        rw [← ho.1, ← Bool.not_eq_true, ← hsd.lock, hlock]
        simpa using ht.symm
      refine hev.undisturbed hd hnot hlock (hsd.used t) fun file hm hm' => ?_
      exact ht (hsd.disjoint t' t file (by rwa [ho.2]) hm)
    | abandon t' hw ho hn hk =>
      have ht : t' ≠ t := by
        rintro rfl
        have hf := hn.2.1
        rw [Service.held, hx'] at hf
        simp only [ha', Bool.true_and, Task.events, hhist] at hf
        rw [hh] at hf
        cases hf
      refine ⟨by rw [hw]; rfl, ?_, fun file hm => ?_⟩
      · rw [hw]
        exact if_neg (by rw [hlock]; simpa using ht.symm)
      · rw [hw]
        exact if_neg fun hm' => ht (hsd.disjoint t' t file (by rwa [ho]) hm)

/-- An operation that has the guard has the lock. -/
theorem guard_lock {ρ : Hist St DB → World St DB → World St DB → Prop} {p q : Svc α}
    (hρ : ∀ h w w', ρ h w w' → Undisturbed t h w w') (hs : Safe Disciplined post [] p)
    (hx : Exec (Under (machine P) t ρ) ([], w₀) p evs q (h, w))
    (hh : holding (h.map Entry.event) = true) : w.lock = some t := by
  refine Safe.invariant (fun h w => holding (h.map Entry.event) = true → w.lock = some t)
    hs ?_ (by simp [holding]) hx hh
  intro h w e r w₁ w₂ hi hd hr hh hn
  rw [List.map_append, List.map_singleton, holding_snoc] at hn
  cases hh with
  | locked => rfl
  | busy => cases hn
  | unlock => cases hn
  | _ =>
    obtain ⟨_, hl, _⟩ := hρ _ _ _ hr hn
    exact hl.trans (hi hn)

end FastBackup

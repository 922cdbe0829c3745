import FastBackup.Interaction.Restart
import FastBackup.Server.Undo

namespace FastBackup
open Interaction
set_option autoImplicit true

variable {St DB : Type} {P : Ports St DB} {c₀ c c' : Service St DB}

/-- What is left when the process of the service ends in any state: the database, the storage and
the data folder. The next process has a lock of its own. -/
def World.crash (w : World St DB) : World St DB := { w with lock := none, jobs := fun _ => none }

/-- Runs of the service, each in the world that the one before it left when its process ended. -/
abbrev Service.Life (P : Ports St DB) (c c' : Service St DB) : Prop :=
  Interaction.Life (machine P) Request.body World.crash c c'

theorem restart_initial (c : Service St DB) : Service.Initial (c.restart World.crash) :=
  ⟨⟨fun _ => rfl, rfl⟩, rfl, fun _ => rfl⟩

/-- Every state of a life is the state of a run. -/
theorem life_run (hc : c₀.Initial) (hl : Service.Life P c₀ c) :
    ∃ c₁ : Service St DB, c₁.Initial ∧ Service.Steps P c₁ c := by
  obtain ⟨c₁, hc₁, _, hr, _⟩ := life_rule Service.Initial (fun _ => True) restart_initial
    (fun _ _ => trivial) (fun _ _ _ _ _ _ _ => trivial) hc trivial hl
  exact ⟨c₁, hc₁, hr⟩

/-- A stored pre-restore backup stays, however often the service is restarted. -/
theorem life_keeps_preRestore (hc : c.Initial) (hl : Service.Life P c c')
    (hk : info.kind = .preRestore)
    (hb : P.storage.lookup c.world.store info.id = some (info, content)) :
    ∃ c₁ : Service St DB, c₁.Initial ∧ Service.Steps P c₁ c' ∧
      ∀ c₂, Service.Steps P c₁ c₂ →
        P.storage.lookup c₂.world.store info.id = some (info, content) := by
  let I (w : World St DB) : Prop := P.storage.lookup w.store info.id = some (info, content)
  have hstep : ∀ c₀ c c' : Service St DB, c₀.Initial → Service.Steps P c₀ c →
      Service.Step P c c' → I c.world → I c'.world := by
    intro c₀ c c' hc hr hs hi
    exact step_keeps_preRestore hc hr hs hk hi
  obtain ⟨c₁, hc₁, hi, hr, _⟩ := life_rule Service.Initial I restart_initial (fun _ hi => hi)
    hstep hc hb hl
  refine ⟨c₁, hc₁, hr, fun c₂ hr₂ => ?_⟩
  induction hr₂ with
  | refl => exact hi
  | tail hr₂ hs ih => exact hstep _ _ _ hc₁ hr₂ hs ih

/-- Undo survives the end of the process: whenever an operation has invoked the restorer, also when
the process ends before the restorer answers, the dump taken before stays in the storage for all
later processes, and any of their restores of it that returns `Ok` sets the database to the value
dumped. -/
theorem undo_survives_restart {x : Client St DB} (hc : c₀.Initial) (hl : Service.Life P c₀ c)
    (hx : c.tasks t = some x) (hi : (t, .restore src) ∈ c.trace) :
    ∃ info dump file, ∃ dumped ∈ x.hist, dumped.event = ⟨.dump file, .ok ()⟩ ∧
      P.dumps dumped.pre.db dump ∧ info.kind = .preRestore ∧
      ∀ c', Service.Life P (c.restart World.crash) c' →
        P.storage.lookup c'.world.store info.id = some (info, dump) ∧
        ∀ t' y deps confirm out, c'.tasks t' = some y →
          y.op = ⟨deps, .restore (.id info.id) confirm⟩ →
          y.rest = .ret (.restored (.ok out)) →
          ∃ en ∈ y.hist, (∃ src, en.event = ⟨.restore src, .ok ()⟩) ∧
            en.post.db = dumped.pre.db := by
  obtain ⟨c₁, hc₁, hr⟩ := life_run hc hl
  obtain ⟨_, _, _, _, file, _, copy, _, dump, h, _, _, hpre, hp⟩ := invoked_prepared hc₁ hr hx hi
  obtain ⟨dumped, hdm, hde, hdd, _⟩ := hp.dumped
  obtain ⟨uploaded, hum, hue, huf⟩ := hp.uploaded
  obtain ⟨hkind, content, hf, hstored⟩ := copied_of_steps hc₁ hr hx (hpre.subset hum) hue rfl
  have hcontent : content = dump := Option.some.inj (hf.symm.trans huf)
  rw [hcontent] at hstored
  refine ⟨copy, dump, file, dumped, hpre.subset hdm, hde, hdd, hkind, ?_⟩
  intro c' hl'
  obtain ⟨c₂, hc₂, hr', hkept⟩ := life_keeps_preRestore (restart_initial c) hl' hkind hstored
  refine ⟨hkept c' hr', ?_⟩
  intro t' y deps confirm out hy hop hk
  apply restore_of_copy hc₂ hr' hy hop hk hdd
  exact entries_since (fun w => P.storage.lookup w.store copy.id = some (copy, dump)) hkept hr'
    (hc₂.pool.1 t') hy

/-- The process ends while the restorer runs. -/
theorem undo_survives_restart_someRequest : ∃ c : Service MapStore Bytes, ∃ info dump,
    (0, .restore "f") ∈ c.trace ∧ info.kind = .preRestore ∧
    (c.restart World.crash).world.lock = none ∧
    mapPorts.storage.lookup (c.restart World.crash).world.store info.id = some (info, dump) := by
  obtain ⟨h, w, k, hx⟩ := someRequest_exec
  obtain ⟨c₀, c, hc, _, hr, _, hi, ht, _⟩ := service_of_exec hx rfl (fun _ => rfl) rfl
    (by simp [prepared, copied, resolved])
  have hlife : Service.Life mapPorts c₀ c := Steps.life hr
  obtain ⟨info, dump, _, _, _, _, _, hk, hkept⟩ := undo_survives_restart hc hlife ht hi
  exact ⟨c, info, dump, hi, hk, rfl, (hkept _ .refl).1⟩

end FastBackup

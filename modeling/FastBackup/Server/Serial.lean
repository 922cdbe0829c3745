import FastBackup.Interaction.Segments
import FastBackup.Server.Lock
import FastBackup.Server.Shape

namespace FastBackup
open Interaction
set_option autoImplicit true

variable {St DB : Type} {P : Ports St DB} {c₀ c c' : Service St DB}

/-- An operation that writes has the guard at each awaited call. -/
theorem writer_holds {q : Request} {k : e.Reply → Svc Outcome} (hw : q.op.writing = true)
    (hr : Runs q.body h (.call e k)) (ha : e.awaits = true) : holding h = true := by
  have hd := (disc_body q).pre_of_runs hr
  have hc := (shape_body q).pre_of_runs hr
  obtain ⟨deps, op⟩ := q
  cases op with
  | createBackup =>
    cases e with
    | dump | upload => exact hd.1
    | delete => exact hd
    | list =>
      obtain ⟨file, time, info, pages, _, _, _, _, rfl⟩ := hc
      rw [holding_append fun ev hm => Call.prunes_awaits (pageCalls_prunes _ _ ev hm)]
      rfl
    | latest | get | download | restore | decompress | openFile | read | send => cases hc
    | tryLock | unlock | tempFile | dropFile | now => cases ha
  | restore target confirm =>
    cases e with
    | dump | upload | restore => exact hd.1
    | get | latest =>
      rw [hc.2]
      rfl
    | download =>
      rw [hc.2]
      cases target <;> rfl
    | list | delete | decompress | openFile | read | send => cases hc
    | tryLock | unlock | tempFile | dropFile | now => cases ha
  | list | resolve | download | downloadBackup => cases hw

/-- Whether `t` is an operation that writes. -/
def Service.writer (c : Service St DB) (t : Nat) : Bool :=
  match c.tasks t with
  | some x => x.op.op.writing
  | none => false

theorem writer_step (hs : Service.Step P c c') (hx : c.tasks t = some x) :
    c'.writer t = c.writer t := by
  obtain ⟨x', hx', hop⟩ := hs.task_kept hx
  simp only [Service.writer, hx, hx', hop]

/-- The calls of the operations that write. -/
def Service.guarded (c : Service St DB) : List (Nat × Call) := c.trace.filter fun p => c.writer p.1

/-- Who has the lock is a running operation that writes. -/
theorem lock_writer (hc : c₀.Initial) (hr : Service.Steps P c₀ c) (hl : c.world.lock = some t) :
    ∃ x, c.tasks t = some x ∧ x.phase.active = true ∧ x.op.op.writing = true := by
  have hh := ((sound_of_steps hc hr).lock t).1 hl
  cases hx : c.tasks t with
  | none =>
    rw [Service.held, hx] at hh
    cases hh
  | some x =>
    rw [Service.held, hx] at hh
    obtain ⟨ha, hh⟩ := Bool.and_eq_true_iff.1 hh
    refine ⟨x, rfl, ha, ?_⟩
    rw [← Bool.not_eq_false]
    intro hw
    rw [reader_not_holding hw (task_runs hc.pool hr t x hx)] at hh
    cases hh

theorem task_of_trace (hc : c₀.Initial) (hr : Service.Steps P c₀ c) (hm : (t, e) ∈ c.trace) :
    ∃ x pending, c.tasks t = some x ∧ Traced (machine P) (callsOf t c.trace) pending x := by
  have hcall : e ∈ callsOf t c.trace :=
    List.mem_map.2 ⟨(t, e), List.mem_filter.2 ⟨hm, by simp⟩, rfl⟩
  cases hx : c.tasks t with
  | none =>
    rw [(pool_traced hc.pool hr).1 t hx] at hcall
    cases hcall
  | some x =>
    obtain ⟨pending, htr⟩ := (pool_traced hc.pool hr).2 t x hx
    exact ⟨x, pending, rfl, htr⟩

/-- Before its first reply an operation that writes has issued no call. -/
theorem guarded_started (hc : c₀.Initial) (hr : Service.Steps P c₀ c) (he : c.events t = []) :
    ∀ p ∈ c.guarded, p.1 ≠ t := by
  rintro ⟨t', e⟩ hp rfl
  obtain ⟨hm, hw⟩ := List.mem_filter.1 hp
  obtain ⟨x, pending, hx, htr⟩ := task_of_trace hc hr hm
  rw [Service.writer, hx] at hw
  rw [Service.events, hx] at he
  have hcall : e ∈ callsOf t' c.trace :=
    List.mem_map.2 ⟨(t', e), List.mem_filter.2 ⟨hm, by simp⟩, rfl⟩
  rw [htr.calls_eq, show x.events = [] from he] at hcall
  rcases htr.pending_eq with hn | ⟨e', k, hk, ha, hn⟩
  · rw [hn] at hcall
    cases hcall
  · have hrun := task_runs hc.pool hr t' x hx
    rw [hk, show x.events = [] from he] at hrun
    exact absurd (writer_holds hw hrun ha) (by simp [holding])

/-- Only an operation without any reply can get the lock. -/
theorem lock_new (hc : c₀.Initial) (hr : Service.Steps P c₀ c) (hs : Service.Step P c c')
    (hl : c'.world.lock = some t) : c.world.lock = some t ∨ c.events t = [] := by
  have hsd := sound_of_steps hc hr
  have hheld := ((sound_of_steps hc (hr.tail hs)).lock t).1 hl
  rw [hsd.lock]
  cases step_change hc hr hs with
  | quiet d hw hk | job _ hj hk | start _ hw _ _ _ hk =>
    rw [(hk t).2.1] at hheld
    exact .inl hheld
  | reply t₀ ev hh hd ho hn hk =>
    by_cases ht : t = t₀
    · subst ht
      by_contra hcon
      rw [not_or, Bool.not_eq_true, ho.1] at hcon
      rw [hn.2.1, hn.1, holding_snoc_false hd hcon.2 hcon.1] at hheld
      cases hheld
    · rw [(hk t ht).2.1] at hheld
      exact .inl hheld
  | abandon t₀ hw ho hn hk =>
    by_cases ht : t = t₀
    · rw [ht, hn.2.1] at hheld
      cases hheld
    · rw [(hk t ht).2.1] at hheld
      exact .inl hheld

/-- The calls of the operations that write come in one segment for each operation. -/
theorem guarded_segmented (hc : c₀.Initial) (hr : Service.Steps P c₀ c) :
    Segmented c.world.lock c.guarded := by
  induction hr with
  | refl =>
    rw [Service.guarded, hc.pool.2]
    exact .nil _
  | @tail c c' hr hs ih =>
    have hown : Segmented c'.world.lock c.guarded := by
      refine ih.owner ?_
      intro t hl
      rcases lock_new hc hr hs hl with h | h
      · exact .inl h
      · exact .inr (guarded_started hc hr h)
    have hkeep : c.trace.filter (fun p => Service.writer c' p.1) = Service.guarded c := by
      refine List.filter_congr ?_
      rintro ⟨t, e⟩ hp
      obtain ⟨x, _, hx, _⟩ := task_of_trace hc hr hp
      exact writer_step hs hx
    rcases hs.trace_cases with htr | ⟨t, x, e, k, hx, hp, hk, ha, hw, htr⟩
    · rw [Service.guarded, htr, hkeep]
      exact hown
    · rw [Service.guarded, htr, List.filter_append, hkeep]
      cases hwr : Service.writer c' t with
      | false =>
        rw [List.filter_cons_of_neg (by simp [hwr]), List.filter_nil, List.append_nil]
        exact hown
      | true =>
        rw [List.filter_cons_of_pos (by simp [hwr]), List.filter_nil]
        have hrun := task_runs hc.pool hr t x hx
        rw [hk] at hrun
        rw [writer_step hs hx, Service.writer, hx] at hwr
        have hheld : Service.held c t = true := by
          rw [Service.held, hx]
          simp only [hp, writer_holds hwr hrun ha]
          rfl
        have hl : c'.world.lock = some t := by
          rw [← ((sound_of_steps hc hr).lock t).2 hheld, hw]
          cases e <;> rfl
        rw [hl] at hown ⊢
        exact hown.push e

/-- A call that writes is issued by an operation that writes. -/
theorem writes_writer (hc : c₀.Initial) (hr : Service.Steps P c₀ c) (hm : (t, e) ∈ c.trace)
    (hw : e.writes = true) : c.writer t = true := by
  obtain ⟨x, _, hx, _⟩ := task_of_trace hc hr hm
  obtain ⟨_, h, _, k, _, hex⟩ := (guard_rely hc).invoked hc.pool hr hx hm
  have hd := (disc_body x.op).pre_of_runs hex.runs
  have hh : holding (h.map Entry.event) = true := by
    cases e with
    | dump | upload | restore => exact hd.1
    | delete => exact hd
    | _ => cases hw
  rw [Service.writer, hx, ← Bool.not_eq_false]
  intro hn
  rw [reader_not_holding hn hex.runs] at hh
  cases hh

theorem filter_writes_awaited (h : List Ev) :
    (awaited (machine P) h).filter Call.writes = (h.map Event.call).filter Call.writes := by
  rw [awaited, List.filter_filter]
  refine List.filter_congr ?_
  intro e _
  cases e <;> rfl

/-- The calls that write come in one segment for each operation, which follows the operation's own
sequence of calls. -/
theorem writes_segmented (hc : c₀.Initial) (hr : Service.Steps P c₀ c) :
    ∃ segs, c.trace.filter (fun p => p.2.writes) = flat segs ∧ (segs.map Prod.fst).Nodup ∧
      ∀ s ∈ segs, ∃ x h out, c.tasks s.1 = some x ∧ Runs x.op.body (x.events ++ h) (.ret out) ∧
        s.2 <+: ((x.events ++ h).map Event.call).filter Call.writes := by
  obtain ⟨segs, hg, hn, hne, _⟩ := guarded_segmented hc hr
  have hmap : ((segs.map fun s => (s.1, s.2.filter Call.writes)).map Prod.fst) =
      segs.map Prod.fst := by
    simp [Function.comp_def]
  refine ⟨segs.map fun s => (s.1, s.2.filter Call.writes), ?_, by rwa [hmap], ?_⟩
  · rw [← flat_filter, ← hg, Service.guarded, List.filter_filter]
    refine List.filter_congr ?_
    rintro ⟨t, e⟩ hp
    cases hw : e.writes with
    | false => rfl
    | true =>
      rw [writes_writer hc hr hp hw]
      rfl
  · intro s' hs'
    obtain ⟨⟨t, calls⟩, hs, rfl⟩ := List.mem_map.1 hs'
    obtain ⟨e, he⟩ := List.exists_mem_of_ne_nil _ (hne _ hs)
    have hm : (t, e) ∈ c.guarded := by
      rw [hg]
      exact List.mem_flatMap.2 ⟨_, hs, List.mem_map_of_mem he⟩
    obtain ⟨hm, hw⟩ := List.mem_filter.1 hm
    obtain ⟨x, pending, hx, htr⟩ := task_of_trace hc hr hm
    obtain ⟨h, out, hrest, hpre⟩ := htr.complete
    refine ⟨x, h, out, hx, (task_runs hc.pool hr t x hx).append hrest, ?_⟩
    have hcalls : calls = callsOf t c.trace := by
      rw [← callsOf_flat hn hs, ← hg, callsOf, callsOf, Service.guarded, List.filter_filter]
      congr 1
      refine List.filter_congr ?_
      intro p _
      by_cases hp : p.1 = t
      · simp only [hp, hw]
        rfl
      · simp [hp]
    rw [← filter_writes_awaited (P := P), hcalls]
    exact hpre.filter _

theorem runs_of_trace {x : Client St DB} (hc : c₀.Initial) (hr : Service.Steps P c₀ c)
    (hx : c.tasks t = some x) (hm : (t, e) ∈ c.trace) :
    ∃ h k, Runs x.op.body h (.call e k) := by
  obtain ⟨_, h, _, k, _, hex⟩ := (guard_rely hc).invoked hc.pool hr hx hm
  exact ⟨_, k, hex.runs⟩

/-- An operation that invokes the restorer deletes nothing. -/
theorem restore_or_delete {id : String} (hc : c₀.Initial) (hr : Service.Steps P c₀ c)
    (hm : (t, .restore src) ∈ c.trace) : (t, .delete id) ∉ c.trace := by
  intro hd
  have hw := writes_writer hc hr hm rfl
  obtain ⟨x, _, hx, _⟩ := task_of_trace hc hr hm
  rw [Service.writer, hx] at hw
  obtain ⟨_, _, hrun⟩ := runs_of_trace hc hr hx hm
  obtain ⟨_, _, hrun'⟩ := runs_of_trace hc hr hx hd
  have hcall := (shape_body x.op).pre_of_runs hrun
  have hcall' := (shape_body x.op).pre_of_runs hrun'
  obtain ⟨⟨deps, op⟩, _⟩ := x
  cases op with
  | createBackup => exact hcall
  | restore => exact hcall'
  | list | resolve | download | downloadBackup => cases hw

/-- Nothing is deleted between a call of an operation and its invocation of the restorer. -/
theorem no_delete_between {id : String} (hc : c₀.Initial) (hr : Service.Steps P c₀ c)
    (htr : c.trace = tr₁ ++ (t, e) :: (tr₂ ++ (t, .restore src) :: tr₃)) :
    (t', .delete id) ∉ tr₂ := by
  intro hp
  have hm : (t, .restore src) ∈ c.trace := by rw [htr]; simp
  have hd : (t', .delete id) ∈ c.trace := by rw [htr]; simp [hp]
  have hw := writes_writer hc hr hm rfl
  have hw' := writes_writer hc hr hd rfl
  obtain ⟨segs, hg, hn, _⟩ := guarded_segmented hc hr
  simp only [Service.guarded, htr, List.filter_append, List.filter_cons, hw, if_true] at hg
  have ht : t' = t := between_of_flat hn hg.symm (t', .delete id) (List.mem_filter.2 ⟨hp, hw'⟩)
  subst ht
  exact restore_or_delete hc hr hm hd

/-- The error that a failed call of a port reports. -/
def Call.failure : (e : Call) → e.Reply → Option Error
  | .dump _, .error e | .upload _, .error e | .list _ _, .error e | .latest, .error e
  | .get _, .error e | .download _ _, .error e | .delete _, .error e
  | .restore _, .error e => some e
  | _, _ => none

theorem Handle.not_busy {w w' : World St DB} {e : Call} {r : e.Reply} (hh : Handle P t w e r w')
    (he : e.failure r = some err) : err.isBusy = false := by
  cases hh with
  | dumpError hb | uploadUnread _ hb | downloadError hb | restoreError hb =>
    cases he
    exact hb
  | upload _ _ _ hr | list _ hr | latest _ hr | latestAmong _ hr | get _ hr | delete _ hr =>
    rename Except Error _ => r
    cases r with
    | ok => cases he
    | error =>
      cases he
      exact hr _ rfl
  | _ => cases he

section Honest
variable {ρ : Hist St DB → World St DB → World St DB → Prop}

/-- A result other than `Busy`, whatever the calls reply. -/
def Honest (P : Ports St DB) (t : Nat) (ρ : Hist St DB → World St DB → World St DB → Prop)
    (p : Svc (Except Error α)) : Prop :=
  ∀ s, Meets (Under (machine P) t ρ) (fun _ _ => True) (fun _ r => NotBusy r) s p

theorem notBusy_error {e : Error} (he : e.isBusy = false) :
    NotBusy (.error e : Except Error α) := by
  intro e' h
  rwa [← Except.error.inj h]

theorem honest_ok (a : α) : Honest P t ρ (pure (.ok a)) := by
  intro s e he
  cases he

theorem honest_seq {x : SvcE α} {f : α → SvcE β} (hx : Honest P t ρ x.run)
    (hf : ∀ a, Honest P t ρ (f a).run) : Honest P t ρ (x >>= f).run := by
  intro s
  apply Meets.bindE
  refine (hx s).post_mono ?_
  intro s' r hr
  cases r with
  | ok a => exact hf a s'
  | error e => exact notBusy_error (hr e rfl)

theorem honest_call {k : e.Reply → Svc (Except Error α)}
    (hk : ∀ r, (∀ err, e.failure r = some err → err.isBusy = false) → Honest P t ρ (k r)) :
    Honest P t ρ (.call e k) := by
  refine fun s => ⟨trivial, ?_⟩
  rintro r s' ⟨_, _, hh, _⟩
  exact hk r (fun _ he => Handle.not_busy hh he) s'

theorem honest_tempFile (suffix : String) : Honest P t ρ (tempFile suffix).run := by
  refine honest_call fun r _ => ?_
  cases r with
  | ok file => exact honest_ok file
  | error e => exact fun s => notBusy_error rfl

theorem honest_inScope {body : SvcE α} (hb : Honest P t ρ body.run) :
    Honest P t ρ (inScope file body).run := by
  intro s
  apply Meets.bind
  refine (hb s).post_mono ?_
  intro s' r hr
  exact ⟨trivial, fun _ _ _ => hr⟩

theorem honest_dumpAndUpload (deps : ServiceDeps) (kind : BackupKind) :
    Honest P t ρ (dumpAndUpload deps kind).run := by
  refine honest_seq (honest_tempFile _) fun file => honest_inScope ?_
  refine honest_seq (x := Dumper.dump file) ?_ fun _ => ?_
  · exact honest_call fun r hr s e he => hr e (by rw [he]; rfl)
  · refine honest_seq (x := Clock.now) (honest_call fun r _ => honest_ok r) fun time => ?_
    exact honest_call fun r hr s e he => hr e (by rw [he]; rfl)

theorem honest_resolve (target : BackupTarget) : Honest P t ρ (resolve target).run := by
  cases target with
  | id id => exact honest_call fun r hr s e he => hr e (by rw [he]; rfl)
  | latest =>
    refine honest_seq (x := Storage.latest) ?_ fun found => ?_
    · exact honest_call fun r hr s e he => hr e (by rw [he]; rfl)
    · cases found with
      | none => exact fun s => notBusy_error rfl
      | some info => exact honest_ok info

def isBusy : Except Error α → Bool
  | .error e => e.isBusy
  | .ok _ => false

theorem isBusy_of_not {r : Except Error α} (hr : NotBusy r) : isBusy r = false := by
  cases r with
  | ok a => rfl
  | error e => exact hr e rfl

/-- The first call was for the lock; it failed if `busy`, and then was the only call. -/
def Answered (s : Hist St DB × World St DB) (busy : Bool) : Prop :=
  ∃ en rest, s.1 = en :: rest ∧ en.event = ⟨.tryLock, !busy⟩ ∧ (busy = true → rest = [])

theorem answered_withLock {body : SvcE α} (hb : Honest P t ρ body.run) (w : World St DB) :
    Meets (Under (machine P) t ρ) (fun _ _ => True) (fun s r => Answered s (isBusy r)) ([], w)
      (withLock body).run := by
  refine ⟨trivial, ?_⟩
  rintro got s ⟨w', _, hh, hs⟩
  cases got with
  | false => exact ⟨_, [], hs, rfl, fun _ => rfl⟩
  | true =>
    apply Meets.bind (p := body.run)
    refine (hb s).history.post_mono ?_
    rintro s' r ⟨hr, h, hh⟩
    refine ⟨trivial, ?_⟩
    rintro _ s'' ⟨w'', _, _, hs'⟩
    rw [hh, hs] at hs'
    refine ⟨_, _, hs', ?_⟩
    rw [isBusy_of_not hr]
    exact ⟨rfl, nofun⟩

/-- An operation that takes the lock: not a `restore` without the right confirmation. -/
def Request.locking (q : Request) : Bool :=
  match q.op with
  | .createBackup => true
  | .restore _ confirm => confirm = q.deps.restorerDbName
  | _ => false

def Outcome.isBusy : Outcome → Bool
  | .backup r => FastBackup.isBusy r
  | .restored r => FastBackup.isBusy r
  | .page r => FastBackup.isBusy r
  | .file r => FastBackup.isBusy r
  | .streamed r => FastBackup.isBusy r

theorem answered_body {q : Request} (hq : q.locking = true) (w : World St DB) :
    Meets (Under (machine P) t ρ) (fun _ _ => True) (fun s out => Answered s out.isBusy) ([], w)
      q.body := by
  obtain ⟨deps, op⟩ := q
  cases op with
  | createBackup =>
    apply Meets.map
    refine answered_withLock (honest_seq (honest_dumpAndUpload deps .regular) fun info => ?_) w
    refine honest_seq (x := ExceptT.lift (pruneOldBackups deps)) ?_ fun _ => honest_ok info
    intro s
    exact Meets.bind ((Meets.top (pruneOldBackups deps) s).post_mono fun s' u _ => honest_ok u s')
  | restore target confirm =>
    apply Meets.map
    unfold restore
    rw [if_neg (by simpa [Request.locking] using hq)]
    refine answered_withLock (honest_seq (honest_resolve target) fun restored => ?_) w
    by_cases hf : restored.format ≠ .pgCustom
    · simp only [if_pos hf]
      exact fun s => notBusy_error rfl
    · simp only [if_neg hf]
      refine honest_seq (honest_tempFile _) fun file => honest_inScope ?_
      refine honest_seq (x := Storage.download restored file) ?_ fun _ => ?_
      · exact honest_call fun r hr s e he => hr e (by rw [he]; rfl)
      refine honest_seq (honest_dumpAndUpload deps .preRestore) fun preRestore => ?_
      refine honest_seq (x := Restorer.restore file) ?_ fun _ => honest_ok _
      exact honest_call fun r hr s e he => hr e (by rw [he]; rfl)
  | list | resolve | download | downloadBackup => cases hq

end Honest

/-- Who an operation saw holding the lock is an operation that writes, and another one when the
operation tried to get the lock. -/
theorem lock_seen {x : Client St DB} {en : Entry (World St DB) Call Call.Reply}
    (hc : c₀.Initial) (hr : Service.Steps P c₀ c) (hx : c.tasks t = some x) (hen : en ∈ x.hist)
    (hl : en.pre.lock = some t') :
    (∃ x', c.tasks t' = some x' ∧ x'.op.op.writing = true) ∧
      (en.event.call = .tryLock → t' ≠ t) := by
  refine entries_invariant (fun c t en => ∀ t', en.pre.lock = some t' →
    (∃ x', c.tasks t' = some x' ∧ x'.op.op.writing = true) ∧
      (en.event.call = .tryLock → t' ≠ t)) ?_ ?_ hc.pool hr t x hx en hen t' hl
  · intro c₁ c₂ t en _ hs hi t' hl
    obtain ⟨⟨x', hx', hw⟩, hne⟩ := hi t' hl
    obtain ⟨x₂, hx₂, hop⟩ := hs.task_kept hx'
    exact ⟨⟨x₂, hx₂, by rw [hop]; exact hw⟩, hne⟩
  · intro c₁ c₂ t x e r k hr hs hx ha _ hq hh t' hl
    obtain ⟨x', hx', _, hw⟩ := lock_writer hc hr hl
    obtain ⟨x₂, hx₂, hop⟩ := hs.task_kept hx'
    refine ⟨⟨x₂, hx₂, by rw [hop]; exact hw⟩, ?_⟩
    rintro rfl rfl
    have hrun := task_runs hc.pool hr t' x hx
    rw [hq] at hrun
    have hnil : x.events = [] := (disc_body x.op).pre_of_runs hrun
    have hheld := ((sound_of_steps hc hr).lock t').1 hl
    rw [Service.held, hx] at hheld
    simp [hnil, holding] at hheld

theorem Handle.tryLock {w w' : World St DB} (hh : Handle P t w .tryLock got w') :
    got = false ↔ ∃ t', w.lock = some t' := by
  cases hh with
  | locked hl => simp [hl]
  | busy hl => simp [hl]

/-- An operation returns `Busy` if another operation that writes had the lock when it tried, and
has then made no other call. -/
theorem busy_iff {x : Client St DB} (hc : c₀.Initial) (hr : Service.Steps P c₀ c)
    (hx : c.tasks t = some x) (hq : x.op.locking = true) (hk : x.rest = .ret out) :
    ∃ en rest, x.hist = en :: rest ∧ en.event.call = .tryLock ∧
      (out.isBusy = true ↔ ∃ t' x', t' ≠ t ∧ c.tasks t' = some x' ∧ x'.op.op.writing = true ∧
        en.pre.lock = some t') ∧
      (out.isBusy = true → rest = [] ∧ callsOf t c.trace = []) := by
  have hm : ∀ w, Meets (Under (machine P) t (Undisturbed t)) (fun _ _ => True)
      (fun s out => Answered s out.isBusy) ([], w) x.op.body := answered_body hq
  obtain ⟨_, ⟨⟨ev, pre, post⟩, rest, hh, hev, hrest⟩, _⟩ :=
    (guard_rely hc).returned hc.pool hr hx hm hk
  replace hh : x.hist = [] ++ ⟨ev, pre, post⟩ :: rest := hh
  obtain ⟨_, _, _, hhd⟩ := (guard_rely hc).entry hc.pool hr hx hm hh
  subst hev
  have hlock := Handle.tryLock hhd
  rw [Bool.not_eq_false'] at hlock
  refine ⟨_, rest, hh, rfl, ?_, ?_⟩
  · rw [hlock]
    constructor
    · rintro ⟨t', hl⟩
      obtain ⟨⟨x', hx', hw⟩, hne⟩ := lock_seen hc hr hx (by rw [hh]; simp) hl
      exact ⟨t', x', hne rfl, hx', hw, hl⟩
    · rintro ⟨t', _, _, _, _, hl⟩
      exact ⟨t', hl⟩
  · intro hb
    obtain ⟨pending, htr⟩ := (pool_traced hc.pool hr).2 t x hx
    refine ⟨hrest hb, ?_⟩
    rw [htr.calls_eq, Task.events, hh, hrest hb]
    rcases htr.pending_eq with hn | ⟨e, k, hcall, _⟩
    · rw [hn]
      rfl
    · rw [hk] at hcall
      cases hcall

/-- Operations that write are serialized, in every reachable state of the service: the calls that
write come in one segment for each operation, which begins the operation's own sequence of such
calls; no `delete` falls between a call of an operation and its invocation of the restorer; an
operation that takes the lock returns `Busy` if and only if another operation that writes had the
lock when it tried, and then it has called no port; and the lock is free unless a running
operation that writes has it. -/
theorem writes_serialized (hc : c₀.Initial) (hr : Service.Steps P c₀ c) :
    (∃ segs, c.trace.filter (fun p => p.2.writes) = flat segs ∧ (segs.map Prod.fst).Nodup ∧
      ∀ s ∈ segs, ∃ x h out, c.tasks s.1 = some x ∧ Runs x.op.body (x.events ++ h) (.ret out) ∧
        s.2 <+: ((x.events ++ h).map Event.call).filter Call.writes) ∧
    (∀ tr₁ t e tr₂ src tr₃, c.trace = tr₁ ++ (t, e) :: (tr₂ ++ (t, .restore src) :: tr₃) →
      ∀ t' id, (t', .delete id) ∉ tr₂) ∧
    (∀ t x out, c.tasks t = some x → x.op.locking = true → x.rest = .ret out →
      ∃ en rest, x.hist = en :: rest ∧ en.event.call = .tryLock ∧
        (out.isBusy = true ↔ ∃ t' x', t' ≠ t ∧ c.tasks t' = some x' ∧
          x'.op.op.writing = true ∧ en.pre.lock = some t') ∧
        (out.isBusy = true → rest = [] ∧ callsOf t c.trace = [])) ∧
    (∀ t, c.world.lock = some t →
      ∃ x, c.tasks t = some x ∧ x.phase.active = true ∧ x.op.op.writing = true) :=
  ⟨writes_segmented hc hr, fun _ _ _ _ _ _ htr _ _ => no_delete_between hc hr htr,
    fun _ _ _ hx hq hk => busy_iff hc hr hx hq hk, fun _ hl => lock_writer hc hr hl⟩

/-- Two backups at once: the second one finds the lock taken. -/
theorem writes_serialized_two : ∃ c : Service MapStore Bytes, ∃ x out,
    c.tasks 1 = some x ∧ x.rest = .ret out ∧ out.isBusy = true ∧ callsOf 1 c.trace = [] ∧
    c.world.lock = some 0 ∧ ∃ y, c.tasks 0 = some y ∧ y.phase.active = true := by
  let q : Request := ⟨⟨"db", "db", none⟩, .createBackup⟩
  let c₀ : Service MapStore Bytes := ⟨someWorld, fun _ => none, []⟩
  have hc : c₀.Initial := ⟨⟨fun _ => rfl, rfl⟩, rfl, fun _ => rfl⟩
  obtain ⟨c₁, hr₁, hw₁, _, ht₁⟩ : ∃ c₁, Service.Steps mapPorts c₀ c₁ ∧ _ :=
    steps_start 0 q rfl rfl rfl (.locked rfl)
  have hl : c₁.world.lock = some 0 := by rw [hw₁]
  obtain ⟨c, hr, hw, _, ht⟩ : ∃ c, Service.Steps mapPorts c₁ c ∧ _ :=
    steps_start 1 q (by rw [ht₁]; rfl) rfl rfl (.busy hl)
  have hx := congrFun ht 1
  rw [Function.update_self] at hx
  obtain ⟨_, _, hbusy, hlock⟩ := writes_serialized hc (hr₁.trans hr)
  obtain ⟨_, _, _, _, _, hcalls⟩ := hbusy 1 _ _ hx rfl rfl
  have hl₀ : c.world.lock = some 0 := by rw [hw, hl]
  obtain ⟨y, hy, ha, _⟩ := hlock 0 hl₀
  exact ⟨c, _, _, hx, rfl, rfl, (hcalls rfl).2, hl₀, y, hy, ha⟩

end FastBackup

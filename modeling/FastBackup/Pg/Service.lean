import FastBackup.Interaction.Expand
import FastBackup.Pg.Process
import FastBackup.Server.Undo

namespace FastBackup
open Interaction
set_option autoImplicit true

/-- The calls of a service whose dumper and restorer are `PgTools`: those of its other ports, and
runs of the client programs. -/
abbrev HostCall := Call ⊕ PgCall

abbrev HostCall.Reply : HostCall → Type
  | .inl e => e.Reply
  | .inr e => e.Reply

abbrev HostEv := Event HostCall HostCall.Reply
abbrev PgEv := Event PgCall PgCall.Reply

/-- How a service with `PgTools` makes its calls. -/
def PgTools.serve (self : PgTools) : (e : Call) → Prog HostCall HostCall.Reply e.Reply
  | .dump dst => (self.dump dst).expand fun e => .perform (Sum.inr e)
  | .restore src => (self.restore src).expand fun e => .perform (Sum.inr e)
  | e => .perform (Sum.inl e)

def HostEv.process : HostEv → Option PgEv
  | ⟨.inl _, _⟩ => none
  | ⟨.inr e, r⟩ => some ⟨e, r⟩

/-- The processes among the calls. -/
def processes (evs : List HostEv) : List PgEv := evs.filterMap HostEv.process

def PgTools.dumpRun (self : PgTools) (dst : Path) (r : Option (Except Error CommandOutput)) :
    PgEv :=
  ⟨.run (dumpCommand self.target self.level dst) self.commandTimeout, r⟩

def PgTools.restoreRun (self : PgTools) (src : Path) (r : Option (Except Error CommandOutput)) :
    PgEv :=
  ⟨.run (restoreCommand self.target src) self.commandTimeout, r⟩

/-- The processes that an operation can have started: none, `pg_dump` if it writes, and then
`pg_restore` if it is a confirmed restore and the dump was a success. -/
inductive Started (self : PgTools) (q : Request) : List PgEv → Prop where
  | none : Started self q []
  | dump (hw : q.op.writing = true) : Started self q [self.dumpRun dst r]
  | restore (ho : q.op = .restore target q.deps.restorerDbName) (hs : Successful r) :
      Started self q [self.dumpRun dst r, self.restoreRun src r']

/-- The processes of an operation that returned `Ok`. -/
inductive Completed (self : PgTools) (q : Request) : List PgEv → Prop where
  | reading (hw : q.op.writing = false) : Completed self q []
  | dump (ho : q.op = .createBackup) (hs : Successful r) : Completed self q [self.dumpRun dst r]
  | restore (ho : q.op = .restore target q.deps.restorerDbName) (hs : Successful r)
      (hs' : Successful r') : Completed self q [self.dumpRun dst r, self.restoreRun src r']

/-- The calls that are carried out by a process. -/
def Call.runs : Call → Bool
  | .dump _ | .restore _ => true
  | _ => false

/-- The dumps and restores among the calls of the service. -/
def processCalls (h : List Ev) : List Ev := h.filter fun ev => ev.call.runs

/-- The process by which a call of the service was carried out. -/
inductive Ran (self : PgTools) : Ev → PgEv → Prop where
  | dump (hs : reply = .ok () → Successful r) :
      Ran self ⟨.dump dst, reply⟩ (self.dumpRun dst r)
  | restore (hs : reply = .ok () → Successful r) :
      Ran self ⟨.restore src, reply⟩ (self.restoreRun src r)

variable {self : PgTools} {q : Request}

theorem PgTools.serve_dump (self : PgTools) (dst : Path) : self.serve (.dump dst) =
    .call (.inr (.run (dumpCommand self.target self.level dst) self.commandTimeout)) fun r =>
      .ret ((ran (dumpCommand self.target self.level dst) self.commandTimeout r).map
        fun _ => ()) := by
  rw [PgTools.serve, PgTools.dump, execute_unit]
  rfl

theorem PgTools.serve_restore (self : PgTools) (src : Path) : self.serve (.restore src) =
    .call (.inr (.run (restoreCommand self.target src) self.commandTimeout)) fun r =>
      .ret ((ran (restoreCommand self.target src) self.commandTimeout r).map fun _ => ()) := by
  rw [PgTools.serve, PgTools.restore, execute_unit]
  rfl

theorem successful_of_map (h : (ran cmd limit r).map (fun _ => ()) = .ok ()) : Successful r := by
  cases hr : ran cmd limit r with
  | error e =>
    rw [hr] at h
    cases h
  | ok out => exact successful_of_ran hr

/-- One call of the service is one call of the host. -/
theorem serve_one (hr : Runs (self.serve e) evs q') :
    (evs = [] ∧ ∃ e' k, q' = .call e' k) ∨ ∃ r, q' = .ret r ∧
      if e.runs = true then ∃ ev, processes evs = [ev] ∧ Ran self ⟨e, r⟩ ev
      else processes evs = [] := by
  have hcall : ∀ {e' : HostCall} {f : e'.Reply → e.Reply},
      Runs (.call e' fun r => .ret (f r)) evs q' →
      (evs = [] ∧ ∃ e' k, q' = .call e' k) ∨
        ∃ r, evs = [⟨e', r⟩] ∧ q' = .ret (f r) := by
    intro e' f hr
    cases hr with
    | nil => exact .inl ⟨rfl, _, _, rfl⟩
    | cons r hr =>
      obtain ⟨rfl, rfl⟩ := runs_ret hr
      exact .inr ⟨r, rfl, rfl⟩
  cases e with
  | dump dst =>
    rw [PgTools.serve_dump] at hr
    rcases hcall hr with h | ⟨r, rfl, rfl⟩
    · exact .inl h
    · exact .inr ⟨_, rfl, _, rfl, .dump successful_of_map⟩
  | restore src =>
    rw [PgTools.serve_restore] at hr
    rcases hcall hr with h | ⟨r, rfl, rfl⟩
    · exact .inl h
    · exact .inr ⟨_, rfl, _, rfl, .restore successful_of_map⟩
  | _ =>
    rcases hcall hr with h | ⟨r, rfl, rfl⟩
    · exact .inl h
    · exact .inr ⟨_, rfl, rfl⟩

theorem processes_append (evs evs' : List HostEv) :
    processes (evs ++ evs') = processes evs ++ processes evs' :=
  List.filterMap_append ..

theorem processCalls_append (h h' : List Ev) :
    processCalls (h ++ h') = processCalls h ++ processCalls h' :=
  List.filter_append ..

theorem processCalls_other (hn : ∀ ev ∈ h, ev.call.runs = false) : processCalls h = [] := by
  rw [processCalls, List.filter_eq_nil_iff]
  intro ev hm
  rw [hn ev hm]
  exact Bool.false_ne_true

theorem processCalls_one {r : e.Reply} (he : e.runs = true) :
    processCalls [⟨e, r⟩] = [⟨e, r⟩] :=
  List.filter_cons_of_pos he

theorem processCalls_none {r : e.Reply} (he : ¬ e.runs = true) : processCalls [⟨e, r⟩] = [] :=
  List.filter_cons_of_neg he

theorem processCalls_pruned (hp : Pruned retention evs) : processCalls evs = [] := by
  apply processCalls_other
  intro ev hm
  have hprunes := hp.prunes ev hm
  generalize ev.call = e at hprunes
  cases e with
  | dump | restore => cases hprunes
  | _ => rfl

/-- The processes of the host are those of the service's dumps and restores. -/
theorem carried_ran (hc : Carries self.serve h evs) :
    List.Forall₂ (Ran self) (processCalls h) (processes evs) := by
  induction hc with
  | nil => exact .nil
  | @cons e h₁ r h h' hr _ ih =>
    rw [← List.singleton_append, processCalls_append, processes_append]
    rcases serve_one hr with ⟨_, e', k, hne⟩ | ⟨r', hret, hone⟩
    · cases hne
    cases hret
    by_cases he : e.runs = true
    · rw [if_pos he] at hone
      obtain ⟨ev, hev, hran⟩ := hone
      rw [hev, processCalls_one he]
      exact .cons hran ih
    · rw [if_neg he] at hone
      rw [hone, processCalls_none he]
      exact ih

/-- The dumps and restores of an operation, in their order. -/
inductive Invoked (q : Request) : List Ev → Prop where
  | none : Invoked q []
  | dump {r : Except Error Unit} (hw : q.op.writing = true) : Invoked q [⟨.dump dst, r⟩]
  | restore {r : Except Error Unit} (ho : q.op = .restore target q.deps.restorerDbName) :
      Invoked q [⟨.dump dst, .ok ()⟩, ⟨.restore src, r⟩]

theorem processCalls_prepared : processCalls
    (prepared deps target restored src file time preRestore) = [⟨.dump file, .ok ()⟩] := by
  cases target <;> rfl

/-- Only operations that write start processes. -/
theorem writing_of_runs {k : e.Reply → Svc Outcome} (hr : Runs q.body h (.call e k))
    (he : e.runs = true) : q.op.writing = true := by
  have hdisc : Disciplined h e := (disc_body q).pre_of_runs hr
  by_contra hw
  have hnot := reader_not_holding (Bool.eq_false_iff.2 hw) hr
  cases e with
  | dump | restore =>
    rw [hdisc.1] at hnot
    cases hnot
  | _ => cases he

theorem Invoked.reading (hi : Invoked q l) (hw : q.op.writing = false) : l = [] := by
  cases hi with
  | none => rfl
  | dump hw' =>
    rw [hw] at hw'
    cases hw'
  | restore ho =>
    rw [ho] at hw
    cases hw

/-- A dump is the first process of its operation, and a restore comes after a dump. -/
theorem invoked_call {k : e.Reply → Svc Outcome} (hr : Runs q.body h (.call e k))
    (he : e.runs = true) (hi : Invoked q (processCalls h)) (r : e.Reply) :
    Invoked q (processCalls h ++ [⟨e, r⟩]) := by
  have hcalls := (shape_body q).pre_of_runs hr
  have hw := writing_of_runs hr he
  obtain ⟨deps, op⟩ := q
  cases e with
  | dump dst =>
    have hfirst : ∀ ev ∈ h, ∀ dst, ev.call ≠ .dump dst := by
      cases op with
      | createBackup => exact hcalls
      | restore => exact hcalls.2
      | list | resolve | download | downloadBackup => cases hw
    have hnil : processCalls h = [] := by
      generalize hl : processCalls h = l at hi
      cases hi with
      | none => rfl
      | dump | restore =>
        have hm := List.mem_of_mem_filter (hl ▸ List.mem_cons_self ..)
        exact absurd rfl (hfirst _ hm _)
    rw [hnil]
    exact .dump hw
  | restore src =>
    cases op with
    | createBackup => cases hcalls
    | restore target confirm =>
      obtain ⟨hc, restored, file, time, preRestore, _, rfl⟩ := hcalls
      rw [processCalls_prepared]
      exact .restore (congrArg (Op.restore target) hc)
    | list | resolve | download | downloadBackup => cases hw
  | _ => cases he

theorem invoked_of_runs (hr : Runs q.body h p) : Invoked q (processCalls h) := by
  induction h using List.reverseRecOn generalizing p with
  | nil => exact .none
  | append_singleton h ev ih =>
    obtain ⟨e, r⟩ := ev
    obtain ⟨_, k, hx, _⟩ := exec_snoc (hr.exec [])
    rw [processCalls_append]
    by_cases he : e.runs = true
    · rw [processCalls_one he]
      exact invoked_call hx.runs he (ih hx.runs) r
    · rw [processCalls_none he, List.append_nil]
      exact ih hx.runs

/-- Whether an operation reports success. -/
def Outcome.isOk : Outcome → Bool
  | .backup (.ok _) | .restored (.ok _) | .page (.ok _) | .file (.ok _) | .streamed (.ok _) => true
  | _ => false

/-- The dumps and restores of an operation that returned `Ok`. -/
inductive Finished (q : Request) : List Ev → Prop where
  | reading (hw : q.op.writing = false) : Finished q []
  | dump (ho : q.op = .createBackup) : Finished q [⟨.dump dst, .ok ()⟩]
  | restore (ho : q.op = .restore target q.deps.restorerDbName) :
      Finished q [⟨.dump dst, .ok ()⟩, ⟨.restore src, .ok ()⟩]

theorem finished_of_runs (hr : Runs q.body h (.ret out)) (ho : out.isOk = true) :
    Finished q (processCalls h) := by
  have hends := (shape_body q).post_of_runs hr
  have hi := invoked_of_runs hr
  obtain ⟨deps, op⟩ := q
  cases op with
  | createBackup =>
    cases out with
    | backup r =>
      cases r with
      | error e => cases ho
      | ok info =>
        obtain ⟨file, time, evs, hp, rfl⟩ := hends
        rw [processCalls_append, processCalls_append, processCalls_pruned hp]
        exact .dump rfl
    | _ => cases hends
  | restore target confirm =>
    cases out with
    | restored r =>
      cases r with
      | error e => cases ho
      | ok out =>
        obtain ⟨hc, _, src, file, time, rfl⟩ := hends
        rw [processCalls_append, processCalls_prepared]
        exact .restore (congrArg (Op.restore target) hc)
    | _ => cases hends
  | list | resolve | download | downloadBackup =>
    rw [hi.reading rfl]
    exact .reading rfl

theorem Invoked.started (hi : Invoked q l) (hran : List.Forall₂ (Ran self) l l') :
    Started self q l' := by
  cases hi with
  | none =>
    cases hran
    exact .none
  | dump hw =>
    rcases hran with _ | ⟨⟨⟩, ⟨⟩⟩
    exact .dump hw
  | restore ho =>
    rcases hran with _ | ⟨⟨hs⟩, _ | ⟨⟨⟩, ⟨⟩⟩⟩
    exact .restore ho (hs rfl)

theorem Finished.completed (hf : Finished q l) (hran : List.Forall₂ (Ran self) l l') :
    Completed self q l' := by
  cases hf with
  | reading hw =>
    cases hran
    exact .reading hw
  | dump ho =>
    rcases hran with _ | ⟨⟨hs⟩, ⟨⟩⟩
    exact .dump ho (hs rfl)
  | restore ho =>
    rcases hran with _ | ⟨⟨hs⟩, _ | ⟨_ | ⟨hs'⟩, ⟨⟩⟩⟩
    exact .restore ho (hs rfl) (hs' rfl)

/-- The processes of a request. Reading requests start none. `create_backup` starts at most one,
`pg_dump` of the configured database. `restore` starts at most two, that `pg_dump` and then
`pg_restore`, the latter only when the database name was confirmed and the dump was a success in
its time. When the request returns `Ok`, it has run all its processes with success. -/
theorem processes_run (self : PgTools) (q : Request)
    (hr : Runs (q.body.expand self.serve) evs p) :
    Started self q (processes evs) ∧
      ∀ out, p = .ret out → out.isOk = true → Completed self q (processes evs) := by
  rcases runs_expand hr with ⟨h, a, hrun, hc, rfl⟩ |
    ⟨h, h₁, h₂, e, k, e', k', hrun, hc, hpart, rfl, rfl⟩
  · refine ⟨(invoked_of_runs hrun).started (carried_ran hc), fun out hout hok => ?_⟩
    cases hout
    exact (finished_of_runs hrun hok).completed (carried_ran hc)
  · -- a call that is not over has started its process only
    rcases serve_one hpart with ⟨rfl, _⟩ | ⟨r, hret, _⟩
    · rw [List.append_nil]
      exact ⟨(invoked_of_runs hrun).started (carried_ran hc), fun out hout => by cases hout⟩
    · cases hret

def someTools : PgTools := ⟨⟨"h", 5432, "u", "p", "db"⟩, .default, 1⟩

def exited : CommandOutput := ⟨true, "exit status: 0", "", ""⟩

/-- The processes of a restore that ends well. -/
theorem processes_run_restore : ∃ evs, Runs (someRequest.body.expand someTools.serve) evs
    (.ret (.restored (.ok ⟨someBackup, someCopy⟩))) ∧
    processes evs = [someTools.dumpRun "g" (some (.ok exited)),
      someTools.restoreRun "f" (some (.ok exited))] ∧
    Completed someTools someRequest (processes evs) := by
  let h : List Ev := prepared someRequest.deps (.id "a") someBackup "f" "g" 0 someCopy ++
    [⟨.restore "f", .ok ()⟩, ⟨.dropFile "f", ()⟩, ⟨.unlock, ()⟩]
  have hrun : Runs someRequest.body h (.ret (.restored (.ok ⟨someBackup, someCopy⟩))) := by
    obtain ⟨_, _, _, hx, _, _, hx', _⟩ := someRestore_exec
    exact (hx.append hx').runs.bind _
  have hport : ∀ {e : Call} {r : e.Reply} {h evs}, e.runs = false →
      Carries someTools.serve h evs →
      Carries someTools.serve (⟨e, r⟩ :: h) (⟨.inl e, r⟩ :: evs) := by
    intro e r h evs he hc
    have hserve : Runs (someTools.serve e) [⟨.inl e, r⟩] (.ret r) := by
      cases e with
      | dump | restore => cases he
      | _ => exact .cons _ (.nil _)
    exact .cons hserve hc
  have hdump : Runs (someTools.serve (.dump "g"))
      [⟨.inr (.run (dumpCommand someTools.target someTools.level "g") someTools.commandTimeout),
        some (.ok exited)⟩] (.ret (.ok ())) := by
    rw [PgTools.serve_dump]
    exact .cons _ (.nil _)
  have hrestore : Runs (someTools.serve (.restore "f"))
      [⟨.inr (.run (restoreCommand someTools.target "f") someTools.commandTimeout),
        some (.ok exited)⟩] (.ret (.ok ())) := by
    rw [PgTools.serve_restore]
    exact .cons _ (.nil _)
  obtain ⟨evs, hc, hp⟩ : ∃ evs, Carries someTools.serve h evs ∧ processes evs =
      [someTools.dumpRun "g" (some (.ok exited)), someTools.restoreRun "f" (some (.ok exited))] :=
    ⟨_, hport rfl <| hport rfl <| hport rfl <| hport rfl <| hport rfl <| .cons hdump <|
      hport rfl <| hport rfl <| hport rfl <| .cons hrestore <| hport rfl <| hport rfl .nil, rfl⟩
  have hr := hc.runs hrun
  exact ⟨evs, hr, hp, (processes_run someTools someRequest hr).2 _ rfl rfl⟩

end FastBackup

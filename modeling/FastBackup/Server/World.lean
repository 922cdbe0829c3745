import FastBackup.Core.Ports
import FastBackup.Interaction.Pool
import FastBackup.Server.Discipline

namespace FastBackup
open Interaction
set_option autoImplicit true

/-- Where a blocking `decompress_file` is: not run yet, with `src` open, with `dst` created, or
over. -/
inductive Stage where
  | queued
  | opened (input : Bytes)
  | created (input : Bytes)
  | ended (r : Except String (Except Error Unit))

structure Job where
  src : Path
  dst : Path
  stage : Stage

/-- What the operations share: the database, the storage, the write lock, the data folder with
the names it has ever given to a temporary file, and the blocking tasks. -/
structure World (St DB : Type) where
  db : DB
  store : St
  lock : Option Nat
  folder : Path → Option Bytes
  used : List Path
  jobs : Nat → Option Job

variable {St DB : Type}

def World.write (w : World St DB) (file : Path) (content : Option Bytes) : World St DB :=
  { w with folder := Function.update w.folder file content }

def World.setJob (w : World St DB) (t : Nat) (job : Job) : World St DB :=
  { w with jobs := Function.update w.jobs t (some job) }

/-- A failed port call reports some error other than `Busy`, which only the lock of the service
reports. -/
def NotBusy (r : Except Error α) : Prop := ∀ e, r = .error e → e.isBusy = false

theorem notBusy_ok (a : α) : NotBusy (.ok a : Except Error α) := by
  intro e he
  cases he

/-- The replies a call of task `t` can get, and what it does to the world. A failed dump or
download leaves anything in its file; a failed restore leaves the database alone. Between the pages
of a `latest` others can change the storage, unless the task has the lock. -/
inductive Handle (P : Ports St DB) (t : Nat) :
    World St DB → (e : Call) → e.Reply → World St DB → Prop where
  | locked (hl : w.lock = none) : Handle P t w .tryLock true { w with lock := some t }
  | busy (hl : w.lock = some t') : Handle P t w .tryLock false w
  | unlock : Handle P t w .unlock () { w with lock := none }
  | tempFile (hf : w.folder file = none) (hu : file ∉ w.used) :
      Handle P t w (.tempFile suffix) (.ok file)
        { w.write file (some []) with used := file :: w.used }
  | tempFileError : Handle P t w (.tempFile suffix) (.error e) w
  | dropFile : Handle P t w (.dropFile file) () (w.write file none)
  | now (time : DateTime) : Handle P t w .now time w
  | dump (b : Bytes) (hd : P.dumps w.db b) :
      Handle P t w (.dump dst) (.ok ()) (w.write dst (some b))
  | dumpError (he : e.isBusy = false) (b : Bytes) :
      Handle P t w (.dump dst) (.error e) (w.write dst (some b))
  | upload {r : Except Error BackupInfo} (content : Bytes) (s' : St)
      (hf : w.folder req.path = some content) (hr : NotBusy r)
      (hs : P.storage.exec w.store (.upload req content) r s') :
      Handle P t w (.upload req) r { w with store := s' }
  | uploadUnread (hf : w.folder req.path = none) (he : e.isBusy = false) :
      Handle P t w (.upload req) (.error e) w
  | list {r : Except Error (Page BackupInfo)} (s' : St) (hr : NotBusy r)
      (hs : P.storage.exec w.store (.list size token) r s') :
      Handle P t w (.list size token) r { w with store := s' }
  | latest {r : Except Error (Option BackupInfo)} (s' : St) (hr : NotBusy r)
      (hs : P.storage.exec w.store .latest r s') : Handle P t w .latest r { w with store := s' }
  | latestAmong {r : Except Error (Option BackupInfo)} (hl : w.lock ≠ some t) (hr : NotBusy r)
      (hs : P.storage.latestAmong r) : Handle P t w .latest r w
  | get {id : String} {r : Except Error BackupInfo} (s' : St) (hr : NotBusy r)
      (hs : P.storage.exec w.store (.get id) r s') :
      Handle P t w (.get id) r { w with store := s' }
  | download (b : Bytes) (s' : St) (hs : P.storage.exec w.store (.download backup) (.ok b) s') :
      Handle P t w (.download backup dst) (.ok ()) { w.write dst (some b) with store := s' }
  | downloadError (he : e.isBusy = false) (b : Bytes) (s' : St)
      (hs : P.storage.exec w.store (.download backup) (.error e) s') :
      Handle P t w (.download backup dst) (.error e) { w.write dst (some b) with store := s' }
  | delete {id : String} {r : Except Error Unit} (s' : St) (hr : NotBusy r)
      (hs : P.storage.exec w.store (.delete id) r s') :
      Handle P t w (.delete id) r { w with store := s' }
  | restore (b : Bytes) (d : DB) (hf : w.folder src = some b) (hd : P.load b = some d) :
      Handle P t w (.restore src) (.ok ()) { w with db := d }
  | restoreError (he : e.isBusy = false) : Handle P t w (.restore src) (.error e) w
  | decompress {r : Except String (Except Error Unit)}
      (hj : w.jobs t = some ⟨src, dst, .ended r⟩) : Handle P t w (.decompress src dst) r w
  | openFile (hf : w.folder file = some content) :
      Handle P t w (.openFile file) (.ok content) w
  | openFileError : Handle P t w (.openFile file) (.error e) w
  | read (hn : n ≤ limit) : Handle P t w (.read limit) (.ok n) w
  | readError : Handle P t w (.read limit) (.error e) w
  | send (received : Bool) : Handle P t w (.send item) received w

/-- A step of the blocking task of `t`. It knows only the paths; what it writes after `dst` was
created goes to the file, which may have lost its name meanwhile. -/
inductive JobStep (P : Ports St DB) (t : Nat) : World St DB → World St DB → Prop where
  | openOk (hj : w.jobs t = some ⟨src, dst, .queued⟩) (hf : w.folder src = some input) :
      JobStep P t w (w.setJob t ⟨src, dst, .opened input⟩)
  | create (hj : w.jobs t = some ⟨src, dst, .opened input⟩) :
      JobStep P t w ((w.write dst (some [])).setJob t ⟨src, dst, .created input⟩)
  | decode (hj : w.jobs t = some ⟨src, dst, .created input⟩) (hd : P.decode input = some output) :
      JobStep P t w ((w.write dst ((w.folder dst).map fun _ => output)).setJob t
        ⟨src, dst, .ended (.ok (.ok ()))⟩)
  | writeFail (hj : w.jobs t = some ⟨src, dst, .created input⟩) (partly : Bytes)
      (hc : context = "Could not decompress legacy backup" ∨
        context = "Could not write decompressed backup") (e : String) :
      JobStep P t w ((w.write dst ((w.folder dst).map fun _ => partly)).setJob t
        ⟨src, dst, .ended (.ok (.error (.io context e)))⟩)
  | fail (hj : w.jobs t = some ⟨src, dst, stage⟩) (hs : ∀ r, stage ≠ .ended r)
      (r : Except String (Except Error Unit)) (hr : r ≠ .ok (.ok ())) :
      JobStep P t w (w.setJob t ⟨src, dst, .ended r⟩)

/-- Without any operation: the application edits the database, or a blocking task goes on. -/
inductive Outside (P : Ports St DB) : World St DB → World St DB → Prop where
  | edit (d : DB) : Outside P w { w with db := d }
  | job (t : Nat) (hj : JobStep P t w w') : Outside P w w'

def World.invoke (w : World St DB) (t : Nat) : Call → World St DB
  | .decompress src dst => w.setJob t ⟨src, dst, .queued⟩
  | _ => w

/-- The destructors of a future of task `t` with history `h`, or of what it returned. -/
def World.abandon (w : World St DB) (t : Nat) (h : List Ev) : World St DB :=
  { w with
    lock := if w.lock = some t then none else w.lock
    folder := fun file => if file ∈ owned h then none else w.folder file }

/-- The service as a machine that runs requests. -/
def machine (P : Ports St DB) : Machine (World St DB) Call Call.Reply where
  handle w t e r w' := Handle P t w e r w'
  awaits := Call.awaits
  invoke := World.invoke
  abandon := World.abandon
  env := Outside P

abbrev Service (St DB : Type) := Pool (World St DB) Call Call.Reply Request Outcome

abbrev Client (St DB : Type) := Task (World St DB) Call Call.Reply Request Outcome

/-- One step of the service with its clients. -/
abbrev Service.Step (P : Ports St DB) (c c' : Service St DB) : Prop :=
  Interaction.Step (machine P) Request.body c c'

abbrev Service.Steps (P : Ports St DB) (c c' : Service St DB) : Prop :=
  Interaction.Steps (machine P) Request.body c c'

variable {P : Ports St DB} {w w' : World St DB} {e : Call} {r : e.Reply}

theorem Handle.jobs_eq (hh : Handle P t w e r w') : w'.jobs = w.jobs := by
  cases hh <;> rfl

/-- Only a successful restore changes the database. -/
theorem Handle.db_eq (hh : Handle P t w e r w')
    (he : ∀ src, (⟨e, r⟩ : Ev) ≠ ⟨.restore src, .ok ()⟩) : w'.db = w.db := by
  cases hh with
  | restore => exact absurd rfl (he _)
  | _ => rfl

theorem Handle.store_eq (hh : Handle P t w e r w') (hu : ∀ req, e ≠ .upload req)
    (hd : ∀ id, e ≠ .delete id) : w'.store = w.store := by
  cases hh with
  | upload => exact absurd rfl (hu _)
  | delete => exact absurd rfl (hd _)
  | list _ _ hs | latest _ _ hs | get _ _ hs | download _ _ hs | downloadError _ _ _ hs =>
    exact P.storage.read_only rfl hs
  | _ => rfl

/-- A stored backup stays until its own id is deleted. -/
theorem Handle.lookup_kept {id : String} (hh : Handle P t w e r w') (he : e ≠ .delete id)
    (hp : ∀ id', e = .delete id' → P.storage.proper id')
    (hl : P.storage.lookup w.store id = some x) : P.storage.lookup w'.store id = some x := by
  by_cases hu : ∃ req, e = .upload req
  · obtain ⟨req, rfl⟩ := hu
    cases hh with
    | upload _ _ _ _ hs => exact upload_keeps hs hl
    | uploadUnread => exact hl
  · by_cases hd : ∃ id', e = .delete id'
    · obtain ⟨id', rfl⟩ := hd
      cases hh with
      | delete _ _ hs =>
        rw [P.storage.delete_keeps hs (hp id' rfl) fun hi => he (by rw [hi]), hl]
    · rwa [hh.store_eq (fun req he => hu ⟨req, he⟩) (fun id' he => hd ⟨id', he⟩)]

theorem Handle.lock_eq (hh : Handle P t w e r w') (ht : e ≠ .tryLock) (hu : e ≠ .unlock) :
    w'.lock = w.lock := by
  cases hh with
  | locked => exact absurd rfl ht
  | unlock => exact absurd rfl hu
  | _ => rfl

/-- The file whose entry in the data folder a call changes. -/
def Call.touched : (e : Call) → e.Reply → Option Path
  | .tempFile _, .ok file => some file
  | .dropFile file, _ => some file
  | .dump dst, _ | .download _ dst, _ => some dst
  | _, _ => none

theorem World.write_of_ne {content : Option Bytes} (hn : file' ≠ file) :
    (w.write file content).folder file' = w.folder file' :=
  Function.update_of_ne hn ..

@[simp] theorem World.write_self (w : World St DB) (file : Path) (content : Option Bytes) :
    (w.write file content).folder file = content :=
  Function.update_self ..

@[simp] theorem World.setJob_self (w : World St DB) (t : Nat) (job : Job) :
    (w.setJob t job).jobs t = some job :=
  Function.update_self ..

theorem World.setJob_of_ne (w : World St DB) (job : Job) (hn : t' ≠ t) :
    (w.setJob t job).jobs t' = w.jobs t' :=
  Function.update_of_ne hn ..

theorem Handle.folder_eq (hh : Handle P t w e r w') (hf : e.touched r ≠ some file) :
    w'.folder file = w.folder file := by
  cases hh with
  | tempFile | dropFile | dump | dumpError | download | downloadError =>
    exact World.write_of_ne fun he => hf (congrArg some he.symm)
  | _ => rfl

theorem Handle.used_mono (hh : Handle P t w e r w') (hf : file ∈ w.used) : file ∈ w'.used := by
  cases hh with
  | tempFile => exact List.mem_cons_of_mem _ hf
  | _ => exact hf

theorem JobStep.frame (hj : JobStep P t w w') : w'.db = w.db ∧ w'.store = w.store ∧
    w'.lock = w.lock ∧ w'.used = w.used ∧ ∀ t', t' ≠ t → w'.jobs t' = w.jobs t' := by
  cases hj <;> exact ⟨rfl, rfl, rfl, rfl, fun t' ht => Function.update_of_ne ht ..⟩

/-- A blocking task goes on with the paths it got, and touches only `dst`. -/
theorem JobStep.paths (hj : JobStep P t w w') : ∃ src dst stage stage',
    w.jobs t = some ⟨src, dst, stage⟩ ∧ w'.jobs t = some ⟨src, dst, stage'⟩ ∧
      ∀ file, file ≠ dst → w'.folder file = w.folder file := by
  cases hj with
  | openOk hj | fail hj =>
    exact ⟨_, _, _, _, hj, Function.update_self .., fun _ _ => rfl⟩
  | create hj | decode hj | writeFail hj =>
    exact ⟨_, _, _, _, hj, Function.update_self .., fun _ hn => World.write_of_ne hn⟩

/-- A small world: one stored backup, and a database of one byte. -/
def someBackup : BackupInfo := ⟨"a", "a.pgdump", 0, none, none, .pgCustom, .regular⟩

def someWorld : World MapStore Bytes where
  db := [1]
  store := Function.update (fun _ => none) "a" (some (someBackup, [2]))
  lock := none
  folder _ := none
  used := []
  jobs _ := none

end FastBackup

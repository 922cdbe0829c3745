import FastBackup.GDrive.Deleting
import FastBackup.GDrive.Latest

namespace FastBackup
open Interaction
set_option autoImplicit true

/-- Any number of changes that others make to the files. -/
abbrev Changes (env : Drive → Drive → Prop) : Drive → Drive → Prop := Relation.ReflTransGen env

/-- Drive while others change its files between the requests. -/
def Disturbed (env : Drive → Drive → Prop) (D : DrivePager) (w : DriveWorld) (e : DriveCall)
    (r : e.Reply) (w' : DriveWorld) : Prop :=
  ∃ d, Changes env w.drive d ∧ DriveStep D ⟨d, w.dst⟩ e r w'

/-- `p` can return `r` when others change the files between its requests. -/
def PerformsAmong (env : Drive → Drive → Prop) (D : DrivePager) (d : Drive) (p : Drv α) (r : α)
    (d' : Drive) : Prop :=
  ∃ dst evs dst', Exec (Disturbed env D) ⟨d, dst⟩ p evs (.ret r) ⟨d', dst'⟩

/-- The calls of the `Storage` port among the changes of others. -/
def GoogleDriveStorage.execAmong (self : GoogleDriveStorage) (env : Drive → Drive → Prop)
    (D : DrivePager) (d : Drive) : (c : StorageCall) → c.Reply → Drive → Prop
  | .upload req content, r, d' => PerformsAmong env D d (self.upload req content) r d'
  | .list size token, r, d' => PerformsAmong env D d (self.list size token) r d'
  | .latest, r, d' => PerformsAmong env D d self.latest r d'
  | .get id, r, d' => PerformsAmong env D d (self.get id) r d'
  | .download backup, .ok content, d' => ∃ dst evs, Exec (Disturbed env D) ⟨d, dst⟩
      (self.download backup) evs (.ret (.ok ())) ⟨d', some content⟩
  | .download backup, .error e, d' => PerformsAmong env D d (self.download backup) (.error e) d'
  | .delete id, r, d' => PerformsAmong env D d (self.delete id) r d'

variable {env : Drive → Drive → Prop} {D : DrivePager} {w w' : DriveWorld} {d d' : Drive}

/-- Nothing is left that a delete request for `id` removes. -/
def Absent (id : String) (d : Drive) : Prop := ∀ f ∈ d.files, ¬ Removes id f

theorem absent_erase (d : Drive) (id : String) : Absent id (d.erase id) :=
  fun _ hf => (Drive.mem_erase.1 hf).2

/-- Where nothing is left to remove, a request changes nothing, and every Drive with nothing left
can answer it in the same way. -/
theorem Deletes.absent {id : String} {r : Timed Unit} (h : Deletes S d id r d')
    (hn : Absent id d) (hn₁ : Absent id d₁) : d' = d ∧ Deletes S d₁ id r d₁ := by
  cases h with
  | removed hf =>
    have hother : ¬ ∃ i, Addresses id i := by
      intro hi
      obtain ⟨f, hm, ha⟩ := hf hi
      exact hn f hm (.inl ha)
    have hsame := Deletes.removed (S := S) (d := d₁) fun hi => absurd hi hother
    rw [d₁.erase_absent hn₁] at hsame
    exact ⟨d.erase_absent hn, hsame⟩
  | missing hs _ => exact ⟨rfl, .missing hs hn₁⟩
  | refused hs hne => exact ⟨rfl, .refused hs hne⟩
  | unsent he => exact ⟨rfl, .unsent he⟩
  | lost hr => exact ⟨rfl, .lost hr⟩
  | lostRemoved hr => exact ⟨d.erase_absent hn, .lost hr⟩

theorem Disturbed.changes (hs : Disturbed env D w e r w') (he : e.reads = true) :
    Changes env w.drive w'.drive := by
  obtain ⟨d, hd, hs⟩ := hs
  have heq : w'.drive = d := hs.drive_eq he
  rw [heq]
  exact hd

theorem Reading.changes {p q : Drv α} (hp : Reading p)
    (hx : Exec (Disturbed env D) w p evs q w') : Changes env w.drive w'.drive := by
  let I (w₁ : DriveWorld) := Changes env w.drive w₁.drive
  have hI : ∀ w₁ e r w₂, e.reads = true → I w₁ → Disturbed env D w₁ e r w₂ → I w₂ :=
    fun _ _ _ _ he hi hs => hi.trans (hs.changes he)
  exact hp.invariant I hI hx .refl

/-- What works on the local file only does the same whatever the files on Drive are. -/
theorem Local.undisturbed {p q : Drv α} (hp : Local p)
    (hx : Exec (Disturbed env D) w p evs q w') (d : Drive) :
    Exec (DriveStep D) ⟨d, w.dst⟩ p evs q ⟨d, w'.dst⟩ := by
  induction hx with
  | nil => exact .nil _ _
  | @cons e s r s' h q s'' k hs hx ih =>
    obtain ⟨he, hk⟩ := hp
    obtain ⟨d₁, _, hs⟩ := hs
    have hstep : DriveStep D ⟨d, s.dst⟩ e r ⟨d, s'.dst⟩ := by
      cases hs with
      | createFile => exact .createFile
      | createFileFail => exact .createFileFail
      | writeFile => exact .writeFile
      | writeFileFail hp => exact .writeFileFail hp
      | flushFile r => exact .flushFile r
      | _ => cases he
    exact .cons hstep (ih (hk r () trivial))

section Retry
variable {policy : RetryPolicy} {call : Drv (Except CallError T)}

/-- Failed attempts can fail in the same number where nothing changes. -/
theorem Failed.timeouts {step : σ → (e : DriveCall) → e.Reply → σ → Prop}
    (hf : Failed step policy call n delay s evs n' delay' s')
    (hx : Exec (DriveStep D) w call ev (.ret (.error (.transient msg))) w) :
    ∃ evs', Failed (DriveStep D) policy call n delay w evs' n' delay' w := by
  induction hf with
  | nil => exact ⟨_, .nil⟩
  | cons _ hn _ hd _ ih =>
    obtain ⟨evs', ih⟩ := ih
    exact ⟨_, .cons hx hn .sleep hd ih⟩

theorem Failed.changes (hc : Reading call)
    (hf : Failed (Disturbed env D) policy call n delay w evs n' delay' w') :
    Changes env w.drive w'.drive := by
  induction hf with
  | nil => exact .refl
  | cons hx _ hs _ _ ih => exact ((hc.changes hx).trans (hs.changes rfl)).trans ih

/-- A retried read takes effect at its last request. -/
theorem retry_atomic {k : e.Reply → Drv (Except CallError T)}
    (hx : Exec (Disturbed env D) w (retry policy (.call e k)) evs (.ret r) w')
    (he : e.reads = true) (hk : ∀ r, Local (k r)) (lost : e.Reply)
    (hs : ∀ w, DriveStep D w e lost w) (hlost : k lost = .ret (.error (.transient msg))) :
    ∃ d₁ dst evs', Changes env w.drive d₁ ∧
      Exec (DriveStep D) ⟨d₁, dst⟩ (retry policy (.call e k)) evs' (.ret r) ⟨d₁, w'.dst⟩ ∧
      Changes env d₁ w'.drive := by
  have hreading : Reading (.call e k) := Reading.call he fun r => (hk r).reading
  obtain ⟨n', delay', s₁, evs₁, evs₂, res, hf, hlast, _, ht, rfl⟩ := exec_retryLoop hx
  obtain ⟨reply, s₂, evs₃, ⟨d₁, hd₁, hreply⟩, hrest, rfl⟩ := exec_call_ret hlast
  have hs₂ : s₂.drive = d₁ := hreply.drive_eq he
  subst hs₂
  have hfail : Exec (DriveStep D) ⟨s₂.drive, s₁.dst⟩ (.call e k) [⟨e, lost⟩]
      (.ret (.error (.transient msg))) ⟨s₂.drive, s₁.dst⟩ := by
    apply Exec.cons (hs _)
    rw [hlost]
    exact .nil _ _
  obtain ⟨evs', hf'⟩ := hf.timeouts hfail
  have hrun := (hk reply).undisturbed hrest s₂.drive
  exact ⟨s₂.drive, s₁.dst, _, (hf.changes hreading).trans hd₁,
    exec_of_failed hf' (.cons hreply hrun) ht, (hk reply).reading.changes hrest⟩

end Retry

namespace GoogleDriveStorage
variable {self : GoogleDriveStorage}

theorem list_atomic (hx : PerformsAmong env D d (self.list size token) r d') :
    ∃ d₁, Changes env d d₁ ∧ Performs D d₁ (self.list size token) r d₁ ∧ Changes env d₁ d' := by
  obtain ⟨dst, evs, dst', hx⟩ := hx
  rw [list_eq] at hx
  obtain ⟨d₁, dst₁, evs', h₁, hrun, h₂⟩ := retry_atomic hx rfl (fun _ => trivial) none
    (fun w => .listFail fun _ h => by cases h) rfl
  exact ⟨d₁, h₁, ⟨dst₁, evs', _, hrun⟩, h₂⟩

theorem get_atomic {id : String} (hx : PerformsAmong env D d (self.get id) r d') :
    ∃ d₁, Changes env d d₁ ∧ Performs D d₁ (self.get id) r d₁ ∧ Changes env d₁ d' := by
  obtain ⟨dst, evs, dst', hx⟩ := hx
  rw [get_eq] at hx
  obtain ⟨file, s₁, evs₁, evs₂, hretry, hret, _⟩ := exec_bind_ret hx
  obtain ⟨_, he, rfl⟩ := exec_ret hret
  obtain ⟨d₁, dst₁, evs', h₁, hrun, h₂⟩ := retry_atomic hretry rfl (fun _ => trivial) none
    (fun w => .getFail fun _ h => by cases h) rfl
  refine ⟨d₁, h₁, ⟨dst₁, evs', dst', ?_⟩, h₂⟩
  rw [get_eq, he]
  exact hrun.bind _

theorem download_atomic (hx : Exec (Disturbed env D) w (self.download backup) evs (.ret r) w') :
    ∃ d₁ dst evs', Changes env w.drive d₁ ∧
      Exec (DriveStep D) ⟨d₁, dst⟩ (self.download backup) evs' (.ret r) ⟨d₁, w'.dst⟩ ∧
      Changes env d₁ w'.drive := by
  obtain ⟨size, s₁, evs₁, evs₂, hretry, hret, _⟩ := exec_bind_ret hx
  obtain ⟨_, he, rfl⟩ := exec_ret hret
  rw [downloadOnce_eq] at hretry
  obtain ⟨d₁, dst₁, evs', h₁, hrun, h₂⟩ := retry_atomic hretry rfl (fun reply => by
      cases timed "Downloading backup" self.requestTimeout reply with
      | error e => trivial
      | ok body => exact local_save)
    none (fun w => .mediaFail fun _ h => by cases h) rfl
  refine ⟨d₁, dst₁, evs', h₁, ?_, h₂⟩
  rw [he]
  exact hrun.bind _

/-- An upload takes effect at its only request. -/
theorem upload_atomic (hx : PerformsAmong env D d (self.upload req content) r d') :
    ∃ d₁ d₂, Changes env d d₁ ∧ Performs D d₁ (self.upload req content) r d₂ ∧
      Changes env d₂ d' := by
  obtain ⟨dst, evs, dst', hx⟩ := hx
  rw [upload_eq] at hx
  obtain ⟨opened, s₁, evs₁, ⟨d₁, hd₁, hopen⟩, hrest, _⟩ := exec_call_ret hx
  cases hopen
  cases opened with
  | error e =>
    obtain ⟨_, he, hs⟩ := exec_ret hrest
    cases he
    cases hs
    exact ⟨d', d', hd₁, ⟨dst, _, dst, .cons (.openFile (.error e)) (.nil _ _)⟩, .refl⟩
  | ok u =>
    obtain ⟨reply, s₂, evs₂, ⟨d₂, hd₂, hcreate⟩, hrest, _⟩ := exec_call_ret hrest
    have hlast : evs₂ = [] ∧ s₂ = ⟨d', dst'⟩ := by
      cases ht : timed "Uploading backup" self.uploadTimeout reply with
      | error e =>
        rw [ht] at hrest
        obtain ⟨he, _, hs⟩ := exec_ret hrest
        exact ⟨he, hs.symm⟩
      | ok created =>
        rw [ht] at hrest
        obtain ⟨he, _, hs⟩ := exec_ret hrest
        exact ⟨he, hs.symm⟩
    obtain ⟨rfl, rfl⟩ := hlast
    obtain ⟨hret, _⟩ := exec_nil hrest
    have hrun : Exec (DriveStep D) ⟨d₂, dst⟩ (self.upload req content)
        [⟨.openFile, .ok u⟩, ⟨.filesCreate _ _ content, reply⟩] (.ret r) ⟨d', dst'⟩ := by
      rw [hret]
      exact .cons (.openFile (.ok u)) (.cons hcreate (.nil _ _))
    exact ⟨d₂, d', hd₁.trans hd₂, ⟨dst, _, dst', hrun⟩, .refl⟩

section Delete
variable {id : String}

theorem exec_deleteOnce {step : σ → (e : DriveCall) → e.Reply → σ → Prop}
    (hx : Exec step s (self.deleteOnce id) evs (.ret res) s') :
    ∃ r, step s (.filesDelete id) r s' ∧ res = timed "Deleting backup" self.requestTimeout r := by
  obtain ⟨r, s₁, evs₁, hs, hrest, _⟩ := exec_call_ret hx
  obtain ⟨_, he, rfl⟩ := exec_ret hrest
  cases he
  exact ⟨r, hs, rfl⟩

/-- A request that is lost without effect. -/
theorem deleteOnce_kept (self : GoogleDriveStorage) (D : DrivePager) (id : String)
    (w : DriveWorld) : ∃ msg, Exec (DriveStep D) w (self.deleteOnce id)
      [⟨.filesDelete id, none⟩] (.ret (.error (.transient msg))) w :=
  ⟨_, .cons (.delete (.lost (.inl rfl))) (.nil _ _)⟩

/-- A request that takes effect and whose reply is lost. -/
theorem deleteOnce_removed (self : GoogleDriveStorage) (D : DrivePager) (id : String)
    (w : DriveWorld) : ∃ msg, Exec (DriveStep D) w (self.deleteOnce id)
      [⟨.filesDelete id, none⟩] (.ret (.error (.transient msg)))
      { w with drive := w.drive.erase id } :=
  ⟨_, .cons (.delete (.lostRemoved (.inl rfl))) (.nil _ _)⟩

variable (hid : ∀ d d', env d d' → (∃ f ∈ d'.files, Removes id f) → ∃ f ∈ d.files, Removes id f)

include hid

/-- Nobody brings the file back. -/
theorem changes_absent (hc : Changes env d d') (hn : Absent id d) : Absent id d' := by
  induction hc with
  | refl => exact hn
  | tail _ hs ih =>
    intro f hf hr
    obtain ⟨g, hg, hgr⟩ := hid _ _ hs ⟨f, hf, hr⟩
    exact ih g hg hgr

/-- Among failed attempts at most one took effect, and they can fail in the same number with that
effect where nothing else changes. -/
theorem Failed.delete_effect (dst : Option Bytes)
    (hf : Failed (Disturbed env D) policy (self.deleteOnce id) n delay w evs n' delay' w') :
    Changes env w.drive w'.drive ∨ ∃ d₁ evs', Changes env w.drive d₁ ∧
      Changes env (d₁.erase id) w'.drive ∧ Absent id w'.drive ∧
      Failed (DriveStep D) policy (self.deleteOnce id) n delay ⟨d₁, dst⟩ evs' n' delay'
        ⟨d₁.erase id, dst⟩ := by
  induction hf with
  | nil => exact .inl .refl
  | @cons s evs msg s₁ n delay s₂ evs' n' delay' s' hx hn hsleep hd hf ih =>
    obtain ⟨r, ⟨d₀, h₀, hs⟩, _⟩ := exec_deleteOnce hx
    have h₂ : Changes env s₁.drive s₂.drive := hsleep.changes rfl
    rcases ((driveStep_deleting D id).request hs).effect with he | he
    · rw [he] at h₂
      rcases ih with hc | ⟨d₁, evs₁, h₁, hrem, habs, hf₁⟩
      · exact .inl ((h₀.trans h₂).trans hc)
      · obtain ⟨msg', hkept⟩ := deleteOnce_kept self D id ⟨d₁, dst⟩
        exact .inr ⟨d₁, _, (h₀.trans h₂).trans h₁, hrem, habs, .cons hkept hn .sleep hd hf₁⟩
    · rw [he] at h₂
      have hafter : Changes env s₂.drive s'.drive ∧ Absent id s'.drive := by
        have habs := changes_absent hid h₂ (absent_erase d₀ id)
        rcases ih with hc | ⟨d₁, _, h₁, hrem, habs', _⟩
        · exact ⟨hc, changes_absent hid hc habs⟩
        · rw [d₁.erase_absent (changes_absent hid h₁ habs)] at hrem
          exact ⟨h₁.trans hrem, habs'⟩
      obtain ⟨_, hremoved⟩ := deleteOnce_removed self D id ⟨d₀, dst⟩
      obtain ⟨_, hkept⟩ := deleteOnce_kept self D id ⟨d₀.erase id, dst⟩
      obtain ⟨_, hf'⟩ := hf.timeouts hkept
      exact .inr ⟨d₀, _, h₀, h₂.trans hafter.1, hafter.2, .cons hremoved hn .sleep hd hf'⟩

/-- A delete takes effect at its last request, or at the first one that took effect although its
reply was lost. -/
theorem delete_atomic (hx : PerformsAmong env D d (self.delete id) r d') :
    ∃ d₁ d₂, Changes env d d₁ ∧ Performs D d₁ (self.delete id) r d₂ ∧ Changes env d₂ d' := by
  obtain ⟨dst, evs, dst', hx⟩ := hx
  rw [delete_eq] at hx
  obtain ⟨gone, s', evs₁, evs₂, hretry, hret, _⟩ := exec_bind_ret hx
  obtain ⟨_, he, rfl⟩ := exec_ret hret
  have hperforms : ∀ d₁ d₂ dst₁ dst₂ evs', Exec (DriveStep D) ⟨d₁, dst₁⟩
      (FastBackup.retry self.retry (self.deleteOnce id)) evs' (.ret gone) ⟨d₂, dst₂⟩ →
      Performs D d₁ (self.delete id) r d₂ := by
    intro d₁ d₂ dst₁ dst₂ evs' hrun
    refine ⟨dst₁, evs', dst₂, ?_⟩
    rw [delete_eq, he]
    exact hrun.bind _
  obtain ⟨n', delay', s₁, _, _, res, hf, hlast, _, ht, rfl⟩ := exec_retryLoop hretry
  obtain ⟨reply, ⟨d₂, hd₂, hs⟩, rfl⟩ := exec_deleteOnce hlast
  rcases Failed.delete_effect hid dst hf with hc | ⟨d₁, evs', h₁, hrem, habs, hf'⟩
  · obtain ⟨_, hkept⟩ := deleteOnce_kept self D id ⟨d₂, s₁.dst⟩
    obtain ⟨_, hf'⟩ := hf.timeouts hkept
    exact ⟨d₂, d', hc.trans hd₂, hperforms _ _ _ _ _ (exec_of_failed hf' (.cons hs (.nil _ _)) ht),
      .refl⟩
  · -- the last request finds the file gone, as it does right after the one that took effect
    have habs₂ := changes_absent hid hd₂ habs
    obtain ⟨hsame, hlast⟩ :=
      ((driveStep_deleting D id).request hs).absent habs₂ (absent_erase d₁ id)
    have hsame : d' = d₂ := hsame
    subst hsame
    have hstep : DriveStep D ⟨d₁.erase id, dst⟩ (.filesDelete id) reply ⟨d₁.erase id, dst⟩ :=
      .delete hlast
    exact ⟨d₁, d₁.erase id, h₁,
      hperforms _ _ _ _ _ (exec_of_failed hf' (.cons hstep (.nil _ _)) ht), hrem.trans hd₂⟩

end Delete

end GoogleDriveStorage

/-- The calls of the storage are atomic: whatever others do to the files between the requests of a
call, also when requests are retried and replies are lost, it has the result and the effect that it
has at one moment when nothing comes between. The other changes come before or after that moment.
What a delete removes does not come back. `latest` is left out, as it may read several pages. -/
theorem drive_atomic (self : GoogleDriveStorage) (hc : c ≠ .latest)
    (hid : ∀ id, c = .delete id → ∀ d d', env d d' → (∃ f ∈ d'.files, Removes id f) →
      ∃ f ∈ d.files, Removes id f)
    (hx : self.execAmong env D d c r d') :
    ∃ d₁ d₂, Changes env d d₁ ∧ self.exec D d₁ c r d₂ ∧ Changes env d₂ d' := by
  cases c with
  | latest => exact absurd rfl hc
  | upload req content => exact GoogleDriveStorage.upload_atomic hx
  | list size token =>
    obtain ⟨d₁, h₁, hp, h₂⟩ := GoogleDriveStorage.list_atomic hx
    exact ⟨d₁, d₁, h₁, hp, h₂⟩
  | get id =>
    obtain ⟨d₁, h₁, hp, h₂⟩ := GoogleDriveStorage.get_atomic hx
    exact ⟨d₁, d₁, h₁, hp, h₂⟩
  | delete id => exact GoogleDriveStorage.delete_atomic (hid id rfl) hx
  | download backup =>
    cases r with
    | ok content =>
      obtain ⟨dst, evs, hx⟩ := hx
      obtain ⟨d₁, dst₁, evs', h₁, hp, h₂⟩ := GoogleDriveStorage.download_atomic hx
      exact ⟨d₁, d₁, h₁, ⟨dst₁, evs', hp⟩, h₂⟩
    | error e =>
      obtain ⟨dst, evs, dst', hx⟩ := hx
      obtain ⟨d₁, dst₁, evs', h₁, hp, h₂⟩ := GoogleDriveStorage.download_atomic hx
      exact ⟨d₁, d₁, h₁, ⟨dst₁, evs', dst', hp⟩, h₂⟩

/-- Others upload a file with another id. -/
def UploadedBeside (id : String) (d d' : Drive) : Prop := ∃ f : Stored, f.id ≠ id ∧ d.Inserted f d'

theorem UploadedBeside.removes {id : String} (ha : Addresses id id) (hu : UploadedBeside id d d')
    (hm : ∃ f ∈ d'.files, Removes id f) : ∃ f ∈ d.files, Removes id f := by
  obtain ⟨f, hne, hi⟩ := hu
  obtain ⟨g, hg, hr⟩ := hm
  rcases hi.mem_iff.1 hg with rfl | hg
  · rcases hr with hr | ⟨ht, _⟩
    · exact absurd (hr.unique ha) hne
    · exact absurd ht ha.not_trash
  · exact ⟨g, hg, hr⟩

/-- A delete takes effect and its reply is lost; before the next attempt another file comes, and
then the file is missing. -/
theorem drive_atomic_delete : ∃ d₁ d₂, Changes (UploadedBeside "a") (someDrive plainMime) d₁ ∧
    GoogleDriveStorage.twiceStorage.exec wholePager d₁ (.delete "a") (.ok ()) d₂ ∧
    Changes (UploadedBeside "a") d₂ (copiedDrive.remove "a") := by
  let w : DriveWorld := ⟨someDrive plainMime, none⟩
  let w₁ : DriveWorld := ⟨(someDrive plainMime).erase "a", none⟩
  let w₂ : DriveWorld := ⟨copiedDrive.erase "a", none⟩
  let step := Disturbed (UploadedBeside "a") wholePager
  have hlost : step w (.filesDelete "a") none w₁ :=
    ⟨_, .refl, .delete (.lostRemoved (.inl rfl))⟩
  have hsleep : step w₁ (.sleep GoogleDriveStorage.twiceStorage.retry.baseDelay) () w₁ :=
    ⟨_, .refl, .sleep⟩
  have hmissing : step w₁ (.filesDelete "a") (some (.error (reported 404 none))) w₂ := by
    have hbeside :
        UploadedBeside "a" ((someDrive plainMime).erase "a") (copiedDrive.erase "a") := by
      rw [Drive.erase_eq_remove addresses_a, Drive.erase_eq_remove addresses_a]
      exact ⟨copyFile, by decide, [], [], rfl, rfl⟩
    exact ⟨copiedDrive.erase "a", .single hbeside,
      .delete (.missing (Iff.refl (404 = 404)) (absent_erase copiedDrive "a"))⟩
  have hx := (GoogleDriveStorage.delete_twice hlost hsleep).append (.cons hmissing (.nil _ _))
  rw [← Drive.erase_eq_remove addresses_a]
  refine drive_atomic _ (fun he => by cases he) ?_ ⟨none, _, none, hx⟩
  rintro id he d d' hu hm
  cases he
  exact hu.removes addresses_a hm

end FastBackup

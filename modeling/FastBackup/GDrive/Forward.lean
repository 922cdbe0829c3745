import FastBackup.GDrive.Atomic
import FastBackup.GDrive.Floor

namespace FastBackup
open Interaction Paging
set_option autoImplicit true

variable {St DB : Type} {P : Ports St DB} {self : GoogleDriveStorage} {D : DrivePager}
  {d d' : Drive} {c₀ c c' : Service Drive DB}

/-- Among the candidates of `latest` there is a backup that is not older than `time`. -/
def Drive.Recent (d : Drive) (folderId : String) (time : DateTime) : Prop :=
  ∃ b ∈ (d.candidates folderId).filterMap Stored.backup, time ≤ b.createdAt

theorem Drive.backups_newest (d : Drive) (folderId : String) :
    ((d.candidates folderId).filterMap Stored.backup).Pairwise newestFirst := by
  apply List.Pairwise.sublist _ (d.backups_sorted folderId)
  exact List.filter_sublist.filterMap _

/-- No request has a retention that keeps nothing. -/
def Service.KeepsSome (c : Service St DB) : Prop :=
  ∀ t x, c.tasks t = some x → x.op.deps.retention ≠ some 0

theorem Service.KeepsSome.of_step {P : Ports St DB} {c c' : Service St DB}
    (hs : Service.Step P c c') (hk : c'.KeepsSome) : c.KeepsSome := by
  intro t x hx
  obtain ⟨x', hx', hop⟩ := hs.task_kept hx
  rw [← hop]
  exact hk t x' hx'

theorem Stored.Completes.folder {content : Bytes}
    (hf : f.Completes (uploadMetadata req folderId) content)
    (hm : f ∈ d.files) : f ∈ d.folder folderId := by
  have hpar := hf.parents
  have hmime := hf.mimeType
  simp only [uploadMetadata, Option.some.injEq] at hpar hmime
  apply List.mem_filter.2
  refine ⟨hm, decide_eq_true ⟨?_, hf.trashed, ?_⟩⟩
  · rw [← hpar]
    exact List.mem_singleton_self _
  · rw [← hmime]
    decide

namespace GoogleDriveStorage

end GoogleDriveStorage

/-- Where there is a recent backup, `latest` finds one. -/
theorem Drive.Recent.found {found : Option BackupInfo} (hr : d.Recent self.folderId time)
    (hx : Performs D d self.latest (.ok found) d') : ∃ b, found = some b ∧ time ≤ b.createdAt := by
  obtain ⟨b, hb, ht⟩ := hr
  have houtcome := GoogleDriveStorage.latest_performs hx
  cases found with
  | none =>
    rw [GoogleDriveStorage.latestOutcome_none houtcome] at hb
    cases hb
  | some b' =>
    have hsorted := d.backups_newest self.folderId
    obtain ⟨rest, hrest⟩ :=
      List.head?_eq_some_iff.1 (GoogleDriveStorage.latestOutcome_some houtcome)
    rw [hrest] at hb hsorted
    refine ⟨b', rfl, ht.trans ?_⟩
    rcases List.mem_cons.1 hb with rfl | hb
    · exact le_refl _
    · exact List.rel_of_pairwise_cons hsorted hb

end FastBackup

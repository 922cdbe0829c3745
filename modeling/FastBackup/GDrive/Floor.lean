import FastBackup.GDrive.Evolution

namespace FastBackup
open Interaction Paging Ranking
set_option autoImplicit true

variable {St DB : Type} {P : Ports St DB} {self : GoogleDriveStorage} {D : DrivePager}
  {c₀ c c' : Service Drive DB}

/-- The number of backups of the folder that retention counts and that are not older than `time`. -/
def Drive.count (d : Drive) (folderId : String) (time : DateTime) : Nat :=
  ((d.regular folderId).filter fun b => time ≤ b.createdAt).length

end FastBackup

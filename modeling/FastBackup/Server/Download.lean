import FastBackup.Server.Shape

namespace FastBackup
open Interaction
set_option autoImplicit true

/-- The calls of a `download` that brought the stored bytes of `info` to `file`. -/
def fetched (target : BackupTarget) (info : BackupInfo) (file : Path) : List Ev :=
  [resolved target info, ⟨.tempFile ".download", .ok file⟩, ⟨.download info file, .ok ()⟩]

/-- The calls of a `download` before it decompresses `src` to `dst`. -/
def beforeDecompress (target : BackupTarget) (info : BackupInfo) (src dst : Path) : List Ev :=
  fetched target info src ++ [⟨.tempFile ".json", .ok dst⟩]

/-- The calls that serve a file to a client. -/
def Call.serves : Call → Bool
  | .openFile _ | .read _ | .send _ => true
  | _ => false

/-- What holds before each call of a `download`. -/
def DownloadCalls (target : BackupTarget) (h : List Ev) : Call → Prop
  | .decompress src dst => ∃ info, info.format = .legacyJsonZstd ∧
      h = beforeDecompress target info src dst
  | _ => True

/-- The calls of a `download` that returned `info` and `file`. -/
def Delivered (target : BackupTarget) (info : BackupInfo) (file : Path) (h : List Ev) : Prop :=
  info.format ≠ .legacyJsonZstd ∧ h = fetched target info file ∨
  info.format = .legacyJsonZstd ∧ ∃ src, h = beforeDecompress target info src file ++
    [⟨.decompress src file, .ok (.ok ())⟩, ⟨.dropFile src, ()⟩]

def DownloadEnds (target : BackupTarget) (h : List Ev) : Except Error (BackupInfo × Path) → Prop
  | .ok (info, file) => Delivered target info file h
  | .error _ => True

/-- The part of a `download` that only legacy backups need. -/
theorem legacy_shape (target : BackupTarget) (hf : info.format = .legacyJsonZstd) :
    Safe (fun h e => DownloadCalls target h e ∧ e.serves = false) (DownloadEnds target)
      (fetched target info file) (inScope file do
        let json ← tempFile ".json"
        handedOver json (decompress file json)
        return (info, json)).run := by
  apply safe_inScope fun _ => ⟨trivial, rfl⟩
  apply safe_tempFile ⟨trivial, rfl⟩ fun _ => trivial
  intro json
  apply Meets.bindE
  apply safe_handedOver fun _ => ⟨trivial, rfl⟩
  refine Safe.call ⟨⟨info, hf, rfl⟩, rfl⟩ ?_
  intro r
  cases r with
  | error e => trivial
  | ok r =>
    cases r with
    | error e => trivial
    | ok u => exact .inr ⟨hf, file, by simp [beforeDecompress]⟩

/-- A `download` decompresses exactly the legacy backups. -/
theorem download_shape (target : BackupTarget) :
    Safe (fun h e => DownloadCalls target h e ∧ e.serves = false) (DownloadEnds target) []
      (download target).run := by
  apply safe_resolve (fun _ _ => ⟨trivial, rfl⟩) (fun _ => ⟨trivial, rfl⟩) fun _ _ _ => trivial
  intro info
  apply safe_tempFile ⟨trivial, rfl⟩ fun _ => trivial
  intro file
  apply Meets.bindE
  apply safe_handedOver fun _ => ⟨trivial, rfl⟩
  refine Safe.call ⟨trivial, rfl⟩ ?_
  intro r
  cases r with
  | error e => trivial
  | ok u =>
    by_cases hf : info.format ≠ .legacyJsonZstd
    · simp only [if_pos hf]
      exact .inl ⟨hf, rfl⟩
    · simp only [if_neg hf]
      exact legacy_shape target (not_not.1 hf)

/-- The calls of the streaming task. -/
def Call.streams : Call → Bool
  | .openFile _ | .read _ | .send _ | .dropFile _ => true
  | _ => false

section
variable {pre : List Ev → Call → Prop} (hp : ∀ h e, e.streams = true → pre h e)

include hp

theorem safe_streamLoop (left : Bytes) : Safe pre (fun _ _ => True) h (streamLoop left) := by
  induction left using streamLoop.induct generalizing h with
  | case1 left ih =>
    rw [streamLoop]
    simp only [ask, Prog.perform_bind]
    refine Safe.call (hp _ _ rfl) ?_
    intro r
    cases r with
    | error e => exact Safe.call (hp _ _ rfl) fun _ => trivial
    | ok n =>
      by_cases hn : min n left.length = 0
      · simp only [dif_pos hn]
        trivial
      · simp only [dif_neg hn]
        refine Safe.call (hp _ _ rfl) ?_
        intro sent
        cases sent with
        | false => trivial
        | true => exact ih n hn

theorem safe_streamFile (file : Path) : Safe pre (fun _ _ => True) h (streamFile file) := by
  refine Safe.call (hp _ _ rfl) ?_
  intro r
  cases r with
  | ok content => exact safe_streamLoop hp content
  | error e => exact Safe.call (hp _ _ rfl) fun _ => trivial
end

theorem downloadBackup_shape (target : BackupTarget) :
    Safe (DownloadCalls target) (fun _ _ => True) [] (downloadBackup target) := by
  have hp : ∀ h e, e.streams = true → DownloadCalls target h e := by
    intro h e he
    cases e with
    | decompress => cases he
    | _ => trivial
  apply Meets.bind
  refine (download_shape target).mono (fun _ _ hd => hd.1) ?_
  intro h r _
  cases r with
  | error e => trivial
  | ok got =>
    refine Safe.call trivial ?_
    intro sent
    cases sent with
    | false => exact Safe.call trivial fun _ => trivial
    | true =>
      apply Meets.bind (p := streamFile got.2)
      refine (safe_streamFile hp got.2).post_mono ?_
      intro _ _ _
      exact Safe.call trivial fun _ => trivial

/-- The operations decompress only what a `download` has fetched. -/
theorem decompress_shape {q : Request} {k : Except String (Except Error Unit) → Svc Outcome}
    (hr : Runs q.body h (.call (.decompress src dst) k)) :
    ∃ target info, info.format = .legacyJsonZstd ∧ h = beforeDecompress target info src dst := by
  have hmap : ∀ {α : Type} {p : Svc α} {f : α → Outcome} (target : BackupTarget),
      Safe (DownloadCalls target) (fun _ _ => True) [] p →
      Runs (f <$> p) h (.call (.decompress src dst) k) →
      ∃ target info, info.format = .legacyJsonZstd ∧ h = beforeDecompress target info src dst := by
    intro α p f target hs hr
    have hm : Safe (DownloadCalls target) (fun _ _ => True) [] (f <$> p) := Meets.map hs
    exact ⟨target, hm.pre_of_runs hr⟩
  obtain ⟨deps, op⟩ := q
  cases op with
  | createBackup => exact ((shape_body _).pre_of_runs hr).elim
  | restore => exact ((shape_body _).pre_of_runs hr).elim
  | list size token =>
    have hs : Safe (DownloadCalls .latest) (fun _ _ => True) [] (listBackups size token).run :=
      Safe.call trivial fun _ => trivial
    exact hmap .latest hs hr
  | resolve target =>
    have hs : Safe (DownloadCalls target) (fun _ _ => True) [] (resolve target >>= pure).run :=
      safe_resolve (fun _ _ => trivial) (fun _ => trivial) (fun _ _ _ => trivial) fun _ => trivial
    rw [bind_pure] at hs
    exact hmap target hs hr
  | download target =>
    exact hmap target ((download_shape target).mono (fun _ _ hd => hd.1) fun _ _ _ => trivial) hr
  | downloadBackup target => exact hmap target (downloadBackup_shape target) hr

end FastBackup

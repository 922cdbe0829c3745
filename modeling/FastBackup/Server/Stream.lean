import FastBackup.Server.Alone
import FastBackup.Server.Blocking

namespace FastBackup
open Interaction
set_option autoImplicit true

/-- The messages that a streaming task has sent, each with whether the client took it. -/
def sent (evs : List Ev) : List (Except Status DownloadChunk × Bool) :=
  evs.filterMap fun ev => match ev with
    | ⟨.send item, taken⟩ => some (item, taken)
    | _ => none

/-- The bytes in the messages of a stream. -/
def dataOf (ms : List (Except Status DownloadChunk)) : Bytes :=
  ms.flatMap fun m => match m with
    | .ok (.data bytes) => bytes
    | _ => []

/-- How the bytes `left` of a file are streamed: the task goes on, or it is over at the end of the
file, after an error, or after a message that the client did not take. -/
inductive Streamed : Bytes → List (Except Status DownloadChunk × Bool) → Bool → Prop where
  | going : Streamed left [] false
  | ended : Streamed [] [] stopped
  | failed (status : Status) (taken : Bool) : Streamed left [(.error status, taken)] stopped
  | refused (hc : 1 ≤ c.length) (hs : c.length ≤ chunkSize) :
      Streamed (c ++ left) [(.ok (.data c), false)] stopped
  | chunk (hc : 1 ≤ c.length) (hs : c.length ≤ chunkSize) (hm : Streamed left ms stopped) :
      Streamed (c ++ left) ((.ok (.data c), true) :: ms) stopped

/-- If only the last message can have been refused, the same holds with one taken before it. -/
theorem taken_cons {ms : List (α × Bool)} (ht : ∀ m ∈ ms.dropLast, m.2 = true) :
    ∀ m ∈ ((a, true) :: ms).dropLast, m.2 = true := by
  intro m hm
  cases ms with
  | nil => cases hm
  | cons m' ms =>
    rw [List.dropLast_cons_cons] at hm
    rcases List.mem_cons.1 hm with rfl | hm
    · rfl
    · exact ht m hm

theorem arrived_info (hr : ∀ rest, rest <+: ms → dataOf rest <+: expected)
    (hg : got <+: .ok (.info info) :: ms) : dataOf got <+: expected := by
  rcases List.prefix_cons_iff.1 hg with rfl | ⟨rest, rfl, hrest⟩
  · exact List.nil_prefix
  · exact hr rest hrest

theorem sent_append (evs evs' : List Ev) : sent (evs ++ evs') = sent evs ++ sent evs' :=
  List.filterMap_append ..

namespace Streamed

theorem messages (hs : Streamed left ms stopped) : ∃ (chunks : List Bytes) (last : _),
    ms.map Prod.fst = chunks.map (fun c => .ok (.data c)) ++ last ∧
    (∀ c ∈ chunks, 1 ≤ c.length ∧ c.length ≤ chunkSize) ∧
    (last = [] ∨ ∃ status, last = [.error status]) := by
  induction hs with
  | going => exact ⟨[], [], rfl, by simp, .inl rfl⟩
  | ended => exact ⟨[], [], rfl, by simp, .inl rfl⟩
  | failed status taken => exact ⟨[], _, rfl, by simp, .inr ⟨status, rfl⟩⟩
  | @refused c _ _ hc hsize => exact ⟨[c], [], rfl, by simp [hc, hsize], .inl rfl⟩
  | @chunk _ _ _ c hc hsize _ ih =>
    obtain ⟨chunks, last, hms, hsizes, hlast⟩ := ih
    refine ⟨c :: chunks, last, by simp [hms], ?_, hlast⟩
    intro c' hm
    rcases List.mem_cons.1 hm with rfl | hm
    · exact ⟨hc, hsize⟩
    · exact hsizes c' hm

/-- Only the last message can have been refused. -/
theorem taken (hs : Streamed left ms stopped) : ∀ m ∈ ms.dropLast, m.2 = true := by
  induction hs with
  | going | ended | failed | refused => simp
  | chunk _ _ _ ih => exact taken_cons ih

/-- What has arrived of the messages is the beginning of the file. -/
theorem arrived (hs : Streamed left ms stopped) (hg : got <+: ms.map Prod.fst) :
    dataOf got <+: left := by
  induction hs generalizing got with
  | going | ended =>
    rw [List.prefix_nil.1 hg]
    exact List.nil_prefix
  | failed status taken =>
    rcases List.prefix_cons_iff.1 hg with rfl | ⟨rest, rfl, hrest⟩
    · exact List.nil_prefix
    · rw [List.prefix_nil.1 hrest]
      exact List.nil_prefix
  | refused =>
    rcases List.prefix_cons_iff.1 hg with rfl | ⟨rest, rfl, hrest⟩
    · exact List.nil_prefix
    · rw [List.prefix_nil.1 hrest]
      simp [dataOf]
  | @chunk _ ms _ c _ _ _ ih =>
    cases got with
    | nil => exact List.nil_prefix
    | cons m got =>
      rw [List.map_cons, List.cons_prefix_cons] at hg
      obtain ⟨rfl, hg⟩ := hg
      exact (List.prefix_append_right_inj c).2 (ih hg)

/-- A stream that is over without an error or a refused message is the whole file. -/
theorem whole (hs : Streamed left ms true) (hm : ∀ m ∈ ms, ∃ c, m = (.ok c, true)) :
    dataOf (ms.map Prod.fst) = left := by
  generalize ho : true = stopped at hs
  induction hs with
  | going => cases ho
  | ended => rfl
  | failed status taken =>
    obtain ⟨c, hc⟩ := hm _ (List.mem_singleton_self _)
    cases hc
  | refused =>
    obtain ⟨c, hc⟩ := hm _ (List.mem_singleton_self _)
    cases hc
  | @chunk _ ms _ c _ _ _ ih =>
    have hrest := ih (fun m hms => hm m (List.mem_cons_of_mem _ hms)) ho
    rw [← hrest]
    rfl

theorem weaken (hs : Streamed left ms true) : Streamed left ms stopped := by
  generalize ho : true = stopped' at hs
  induction hs with
  | going => cases ho
  | ended => exact .ended
  | failed status taken => exact .failed status taken
  | refused hc hsize => exact .refused hc hsize
  | chunk hc hsize _ ih => exact .chunk hc hsize (ih ho)

/-- A read of up to `n` bytes gives the first ones left. -/
theorem read (hn : 1 ≤ n) (hle : n ≤ chunkSize) (hl : left ≠ []) :
    Streamed left [(.ok (.data (left.take n)), false)] stopped ∧
    ∀ ms, Streamed (left.drop n) ms stopped →
      Streamed left ((.ok (.data (left.take n)), true) :: ms) stopped := by
  have hlen := List.length_pos_iff.2 hl
  have hc : 1 ≤ (left.take n).length := by
    rw [List.length_take]
    omega
  have hsize : (left.take n).length ≤ chunkSize := (List.length_take_le n left).trans hle
  have hcut := List.take_append_drop n left
  refine ⟨?_, fun ms hs => ?_⟩
  · have h : Streamed (left.take n ++ left.drop n) _ stopped := refused hc hsize
    rwa [hcut] at h
  · have h := chunk hc hsize hs
    rwa [hcut] at h

end Streamed

/-- Reads give at least one byte, and no more than fit the buffer. -/
def GoodReads (evs : List Ev) : Prop :=
  ∀ limit n, ⟨.read limit, .ok n⟩ ∈ evs → 1 ≤ n ∧ n ≤ limit

theorem GoodReads.tail (hg : GoodReads (ev :: evs)) : GoodReads evs :=
  fun limit n hm => hg limit n (List.mem_cons_of_mem _ hm)

/-- A failure is the last message. -/
theorem runs_failed {q : Svc Unit}
    (hr : Runs (.call (.send (.error status)) fun _ => .ret ()) evs q) :
    Streamed left (sent evs) q.returned := by
  cases hr with
  | nil => exact .going
  | cons taken hr =>
    obtain ⟨rfl, rfl⟩ := runs_ret hr
    exact .failed status taken

theorem runs_streamLoop {q : Svc Unit} (hr : Runs (streamLoop left) evs q) (hg : GoodReads evs) :
    Streamed left (sent evs) q.returned := by
  induction left using streamLoop.induct generalizing evs with
  | case1 left ih =>
    rw [streamLoop] at hr
    simp only [ask, Prog.perform_bind] at hr
    cases hr with
    | nil => exact .going
    | @cons _ evs _ _ r hr =>
      cases r with
      | error e =>
        change Streamed left (sent evs) q.returned
        exact runs_failed hr
      | ok n =>
        obtain ⟨hn, hle⟩ := hg _ n (List.mem_cons_self ..)
        by_cases hz : min n left.length = 0
        · simp only [dif_pos hz] at hr
          obtain ⟨rfl, rfl⟩ := runs_ret hr
          have hl : left = [] := List.length_eq_zero_iff.1 (by omega)
          subst hl
          exact .ended
        · simp only [dif_neg hz] at hr
          have hl : left ≠ [] := by
            rintro rfl
            simp at hz
          cases hr with
          | nil => exact .going
          | cons taken hr =>
            cases taken with
            | true => exact (Streamed.read hn hle hl).2 _ (ih n hz hr hg.tail.tail)
            | false =>
              obtain ⟨rfl, rfl⟩ := runs_ret hr
              exact (Streamed.read hn hle hl).1

theorem runs_streamFile {q : Svc Unit} (hr : Runs (streamFile file) evs q) (hg : GoodReads evs)
    (ho : ∀ content rest, evs = ⟨.openFile file, .ok content⟩ :: rest → content = expected) :
    Streamed expected (sent evs) q.returned := by
  cases hr with
  | nil => exact .going
  | @cons _ evs _ _ r hr =>
    cases r with
    | ok content =>
      have hs := runs_streamLoop hr hg.tail
      rwa [ho content _ rfl] at hs
    | error e =>
      change Streamed expected (sent evs) q.returned
      exact runs_failed hr

/-- The rest of `download_backup` after the download. -/
def serve (info : BackupInfo) (file : Path) : Svc (Except Error Unit) := do
  if ← ask (.send (.ok (.info info))) then streamFile file
  let _ ← ask (.dropFile file)
  return .ok ()

/-- What the client gets of a file whose content is `expected`. -/
inductive Served (info : BackupInfo) (expected : Bytes) :
    List (Except Status DownloadChunk × Bool) → Bool → Prop where
  | nothing : Served info expected [] false
  | refused : Served info expected [(.ok (.info info), false)] stopped
  | streamed (hs : Streamed expected ms stopped) :
      Served info expected ((.ok (.info info), true) :: ms) stopped

theorem runs_dropFile {q : Svc α} (hr : Runs (.call (.dropFile file) fun _ => .ret a) evs q) :
    sent evs = [] := by
  cases hr with
  | nil => rfl
  | cons _ hr =>
    obtain ⟨rfl, _⟩ := runs_ret hr
    rfl

theorem runs_serve {q : Svc (Except Error Unit)} (hr : Runs (serve info file) evs q)
    (hg : GoodReads evs) (ho : ∀ content rest, evs = ⟨.send (.ok (.info info)), true⟩ ::
      ⟨.openFile file, .ok content⟩ :: rest → content = expected) :
    Served info expected (sent evs) q.returned := by
  cases hr with
  | nil => exact .nothing
  | @cons _ evs _ _ taken hr =>
    cases taken with
    | false =>
      have hmessages : sent (⟨.send (.ok (.info info)), false⟩ :: evs) =
          (.ok (.info info), false) :: sent evs := rfl
      rw [hmessages, runs_dropFile hr]
      exact .refused
    | true =>
      have hr : Runs (streamFile file >>= fun _ => .call (.dropFile file) fun _ => .ret (.ok ()))
        evs q := hr
      refine .streamed ?_
      rcases runs_bind hr with ⟨e, k, hq, rfl⟩ | ⟨_, evs₁, evs₂, hfile, hend, rfl⟩
      · refine runs_streamFile hq hg.tail ?_
        rintro content rest rfl
        exact ho content rest rfl
      · have hg₁ : GoodReads evs₁ := fun limit n hm => hg.tail limit n (List.mem_append_left _ hm)
        have hs : Streamed expected (sent evs₁) true := by
          refine runs_streamFile hfile hg₁ ?_
          rintro content rest rfl
          exact ho content (rest ++ evs₂) rfl
        change Streamed expected (sent (evs₁ ++ evs₂)) q.returned
        rw [sent_append, runs_dropFile hend, List.append_nil]
        exact hs.weaken

theorem downloadBackup_eq (target : BackupTarget) : downloadBackup target =
    ((download target).run >>= fun r => match r with
      | .error e => .ret (.error e)
      | .ok got => serve got.1 got.2) := by
  rw [downloadBackup]
  congr 1
  funext r
  cases r <;> rfl

/-- A `download` sends nothing. -/
theorem runs_download_sent {q : Svc (Except Error (BackupInfo × Path))}
    (hr : Runs (download target).run evs q) : sent evs = [] := by
  rw [sent, List.filterMap_eq_nil_iff]
  intro ev hm
  obtain ⟨h₁, h₂, rfl⟩ := List.append_of_mem hm
  have hserves := ((download_shape target).pre_at hr).2
  obtain ⟨e, r⟩ := ev
  cases e with
  | send => cases hserves
  | _ => rfl

/-- A `download_backup` has sent nothing and has no stream, or it streams what was delivered. -/
theorem runs_downloadBackup {q : Svc (Except Error Unit)}
    (hr : Runs (downloadBackup target) evs q) : (sent evs = [] ∧ q ≠ .ret (.ok ())) ∨
      ∃ info file before after, evs = before ++ after ∧ Delivered target info file before ∧
        Runs (serve info file) after q ∧ sent evs = sent after := by
  rw [downloadBackup_eq] at hr
  rcases runs_bind hr with ⟨e, k, hq, rfl⟩ | ⟨r, evs₁, evs₂, hdl, hrest, rfl⟩
  · exact .inl ⟨runs_download_sent hq, fun he => by cases he⟩
  · have hnone := runs_download_sent hdl
    rw [sent_append, hnone, List.nil_append]
    cases r with
    | error e =>
      obtain ⟨rfl, rfl⟩ := runs_ret hrest
      exact .inl ⟨rfl, fun he => by cases he⟩
    | ok got =>
      exact .inr ⟨got.1, got.2, evs₁, evs₂, rfl, (download_shape target).post_of_runs hdl, hrest,
        rfl⟩

section Worlds
variable {St DB : Type} {P : Ports St DB} {c₀ c : Service St DB}

/-- `stored` is what the storage holds for `info` when the operation downloads it. -/
def Fetched (P : Ports St DB) (h : Hist St DB) (info : BackupInfo) (stored : Bytes) : Prop :=
  ∃ en ∈ h, ∃ file, en.event = ⟨.download info file, .ok ()⟩ ∧
    P.storage.exec en.pre.store (.download info) (.ok stored) en.post.store ∧
    (P.storage.names en.pre.store info →
      P.storage.lookup en.pre.store info.id = some (info, stored))

theorem Fetched.mono (hf : Fetched P h info stored) (hs : h ⊆ h') : Fetched P h' info stored := by
  obtain ⟨en, hm, hen⟩ := hf
  exact ⟨en, hs hm, hen⟩

/-- The bytes that a client gets of a backup: those stored, or what legacy ones decode to. -/
def Expected (P : Ports St DB) (info : BackupInfo) (stored expected : Bytes) : Prop :=
  match info.format with
  | .pgCustom => expected = stored
  | .legacyJsonZstd => P.decode stored = some expected

theorem owned_fetched : owned (fetched target info file) = [file] := by
  cases target <;> rfl

theorem owned_beforeDecompress : owned (beforeDecompress target info src dst) = [dst, src] := by
  cases target <;> rfl

/-- One call: before it, the files of the operation are as the last reply left them. -/
theorem kept_call {h : Hist St DB} {p q : Svc α} {e : Call} {r : e.Reply}
    (hev : h.map Entry.event = before)
    (hx : Exec (Under (machine P) t (FilesKept t)) (h, w) p (⟨e, r⟩ :: evs) q s') :
    ∃ w₁ w₂ p', (∀ file ∈ owned before,
        (∀ target info src, before ≠ beforeDecompress target info src file) →
        w₁.folder file = w.folder file) ∧ Handle P t w₁ e r w₂ ∧
      List.map Entry.event (h ++ [⟨⟨e, r⟩, w₁, w₂⟩]) = before ++ [⟨e, r⟩] ∧
      Exec (Under (machine P) t (FilesKept t)) (h ++ [⟨⟨e, r⟩, w₁, w₂⟩], w₂) p' evs q s' := by
  obtain ⟨w₁, w₂, p', hk, hh, hx⟩ := exec_uncons hx
  refine ⟨w₁, w₂, p', ?_, hh, ?_, hx⟩
  · rwa [FilesKept, hev] at hk
  · rw [List.map_append, hev]
    rfl

/-- Just before a decompression the operation has created its target. -/
theorem beforeDecompress_last (he : l ++ [ev] = beforeDecompress target info src dst) :
    ev = ⟨.tempFile ".json", .ok dst⟩ := by
  have hlast := (List.append_inj' he rfl).2
  exact List.singleton_inj.1 hlast

theorem fetched_worlds {p q : Svc α} (hx : Exec (Under (machine P) t (FilesKept t)) ([], w₀) p
      (fetched target info file ++ evs) q s') :
    ∃ h w p' stored, Exec (Under (machine P) t (FilesKept t)) (h, w) p' evs q s' ∧
      h.map Entry.event = fetched target info file ∧ w.folder file = some stored ∧
      Fetched P h info stored := by
  obtain ⟨_, _, _, _, _, hx⟩ := exec_uncons hx
  obtain ⟨_, _, _, _, _, hx⟩ := exec_uncons hx
  obtain ⟨w₁, w₂, p', _, hh, hx⟩ := exec_uncons hx
  cases hh with
  | download stored s₁ hs =>
    refine ⟨_, _, p', stored, hx, rfl, World.write_self .., ?_⟩
    refine ⟨_, List.mem_append_right _ (List.mem_singleton_self _), file, rfl, hs, ?_⟩
    exact fun hn => P.storage.download_content hn hs

/-- What is in the file that a `download` delivers. -/
theorem delivered_worlds {p q : Svc α} (hd : Delivered target info file before)
    (hx : Exec (Under (machine P) t (FilesKept t)) ([], w₀) p (before ++ evs) q (h', w'))
    (hdec : ∀ en ∈ h', ∀ src dst, en.event = ⟨.decompress src dst, .ok (.ok ())⟩ →
      ∃ input output, en.pre.folder src = some input ∧ P.decode input = some output ∧
        en.pre.folder dst = some output) :
    ∃ h w p' stored expected, Exec (Under (machine P) t (FilesKept t)) (h, w) p' evs q (h', w') ∧
      h.map Entry.event = before ∧ Fetched P h info stored ∧ Expected P info stored expected ∧
      w.folder file = some expected := by
  rcases hd with ⟨hf, rfl⟩ | ⟨hf, src, rfl⟩
  · obtain ⟨h, w, p', stored, hx, hev, hfile, hfetched⟩ := fetched_worlds hx
    have hpg : info.format = .pgCustom := by
      cases hfmt : info.format with
      | pgCustom => rfl
      | legacyJsonZstd => exact absurd hfmt hf
    exact ⟨h, w, p', stored, stored, hx, hev, hfetched, by rw [Expected, hpg], hfile⟩
  · rw [beforeDecompress, List.append_assoc, List.append_assoc] at hx
    obtain ⟨h, w, p₁, stored, hx, hev, hfile, hfetched⟩ := fetched_worlds hx
    obtain ⟨a₁, b₁, p₂, hk₁, h₁, hev, hx⟩ := kept_call hev hx
    obtain ⟨a₂, b₂, p₃, hk₂, h₂, hev, hx⟩ := kept_call hev hx
    obtain ⟨a₃, b₃, p₄, hk₃, h₃, hev, hx⟩ := kept_call hev hx
    cases h₁ with
    | tempFile hnew _ =>
    cases h₂ with
    | decompress hended =>
    cases h₃ with
    | dropFile =>
    have hsrc₁ : a₁.folder src = some stored := by
      rw [hk₁ src (by simp [owned_fetched]), hfile]
      exact fun _ _ _ he => by cases beforeDecompress_last (l := [_, _]) he
    have hne : file ≠ src := by
      rintro rfl
      rw [hsrc₁] at hnew
      cases hnew
    have howned : owned (fetched target info src ++ [⟨.tempFile ".json", .ok file⟩]) =
        [file, src] := owned_beforeDecompress
    have hsrc₂ : a₂.folder src = some stored := by
      rw [hk₂ src (by rw [howned]; simp)]
      · exact (World.write_of_ne hne.symm).trans hsrc₁
      · intro _ _ _ he
        cases beforeDecompress_last he
        exact hne rfl
    obtain ⟨rest, hext, _⟩ := exec_entry hx
    have hext : h' = _ ++ rest := hext
    obtain ⟨input, output, hinput, hdecode, houtput⟩ :=
      hdec ⟨⟨.decompress src file, .ok (.ok ())⟩, a₂, a₂⟩ (by rw [hext]; simp) src file rfl
    rw [hsrc₂, Option.some.injEq] at hinput
    subst hinput
    have hfile₃ : a₃.folder file = some output := by
      rw [hk₃ file (by rw [owned_snoc, howned]; simp), houtput]
      exact fun _ _ _ he => by cases beforeDecompress_last he
    refine ⟨_, _, p₄, stored, output, hx, ?_, hfetched.mono ?_, ?_,
      (World.write_of_ne hne).trans hfile₃⟩
    · rw [hev]
      simp [beforeDecompress]
    · simp
    · rw [Expected, hf]
      exact hdecode

theorem Delivered.resolved_mem (hd : Delivered target info file before) :
    resolved target info ∈ before := by
  rcases hd with ⟨_, rfl⟩ | ⟨_, src, rfl⟩ <;> exact List.mem_cons_self ..

/-- What a `download` delivered belongs to the operation, which decompresses nothing any more. -/
theorem Delivered.owned (hd : Delivered target info file before) : file ∈ FastBackup.owned before ∧
    ∀ target info src, before ≠ beforeDecompress target info src file := by
  rcases hd with ⟨_, rfl⟩ | ⟨_, src, rfl⟩
  · refine ⟨by simp [owned_fetched], fun _ _ _ he => ?_⟩
    cases beforeDecompress_last (l := [_, _]) he
  · rw [List.append_cons]
    refine ⟨?_, fun _ _ _ he => by cases beforeDecompress_last he⟩
    rw [owned_snoc, owned_snoc, owned_beforeDecompress]
    by_cases hs : file = src <;> simp [hs]

/-- The streaming task opens what was delivered. -/
theorem opened_content {h : Hist St DB} {p q : Svc α} (hd : Delivered target info file before)
    (hev : h.map Entry.event = before) (hfile : w.folder file = some expected)
    (hx : Exec (Under (machine P) t (FilesKept t)) (h, w) p
      (⟨.send item, taken⟩ :: ⟨.openFile file, .ok content⟩ :: evs) q s') :
    content = expected := by
  obtain ⟨hm, hn⟩ := hd.owned
  obtain ⟨w₁, w₂, _, hk₁, h₁, hev, hx⟩ := kept_call hev hx
  obtain ⟨w₃, w₄, _, hk₂, h₂, _, _⟩ := kept_call hev hx
  cases h₁ with
  | send =>
  cases h₂ with
  | openFile hcontent =>
  have hkept : w₃.folder file = some expected := by
    rw [hk₂ file (by rwa [owned_snoc]), hk₁ file hm hn, hfile]
    exact fun _ _ _ he => by cases beforeDecompress_last he
  exact Option.some.inj (hcontent.symm.trans hkept)

/-- The bounds of a read in a run of the service. -/
theorem read_le {x : Client St DB} (hc : c₀.Initial) (hr : Service.Steps P c₀ c)
    (hx : c.tasks t = some x) (hm : ⟨.read limit, .ok n⟩ ∈ x.events) : n ≤ limit := by
  obtain ⟨w₀, w, hex, _⟩ := (files_rely (P := P) hc).exec hc.pool hr t x hx
  obtain ⟨h', hh', hsplit⟩ := exec_entry hex
  obtain ⟨en, hen, he⟩ := List.mem_map.1 hm
  obtain ⟨h₁, h₂, hcut⟩ := List.append_of_mem hen
  obtain ⟨_, _, _, _, hh⟩ := hsplit h₁ en h₂ (hh'.symm.trans hcut)
  obtain ⟨ev, pre, post⟩ := en
  subst he
  have hh : Handle P t pre (.read limit) (.ok n) post := hh
  cases hh with
  | read hn => exact hn

/-- What a client gets of a stream with the messages `ms`. -/
structure Faithful (info : BackupInfo) (expected : Bytes)
    (ms : List (Except Status DownloadChunk × Bool)) (stopped : Bool) : Prop where
  /-- The first message is the info; the others are data, and at the end possibly an error. -/
  messages : ∃ (chunks : List Bytes) (last : List (Except Status DownloadChunk)),
    ms.map Prod.fst = .ok (.info info) :: chunks.map (fun c => .ok (.data c)) ++ last ∧
    (∀ c ∈ chunks, 1 ≤ c.length ∧ c.length ≤ 1024 * 1024) ∧
    (last = [] ∨ ∃ status, last = [.error status])
  /-- Nothing is sent to a client that has gone away. -/
  taken : ∀ m ∈ ms.dropLast, m.2 = true
  /-- What has arrived is a first part of the expected bytes. -/
  arrived : ∀ got, got <+: ms.map Prod.fst → dataOf got <+: expected
  /-- If the stream ends without an error for a client that still receives, it is the whole. -/
  whole : stopped = true → (∀ m ∈ ms, ∃ c, m = (.ok c, true)) → dataOf (ms.map Prod.fst) = expected

theorem Served.faithful (hs : Served info expected ms stopped) :
    (ms = [] ∧ stopped = false) ∨ Faithful info expected ms stopped := by
  cases hs with
  | nothing => exact .inl ⟨rfl, rfl⟩
  | refused =>
    refine .inr ⟨⟨[], [], rfl, by simp, .inl rfl⟩, by simp, ?_, ?_⟩
    · refine fun got => arrived_info fun rest hrest => ?_
      rw [List.prefix_nil.1 hrest]
      exact List.nil_prefix
    · intro _ hm
      obtain ⟨c, hc⟩ := hm _ (List.mem_singleton_self _)
      cases hc
  | @streamed ms _ hs =>
    refine .inr ⟨?_, taken_cons hs.taken, ?_, ?_⟩
    · obtain ⟨chunks, last, hms, hsizes, hlast⟩ := hs.messages
      exact ⟨chunks, last, by rw [List.map_cons, hms]; rfl, hsizes, hlast⟩
    · exact fun got => arrived_info fun rest hrest => hs.arrived hrest
    · rintro rfl hm
      exact hs.whole fun m hms => hm m (List.mem_cons_of_mem _ hms)

/-- `DownloadBackup` streams a backup faithfully, in every run of the service with any other
operations, any short reads and wherever the client goes away. -/
theorem stream_faithful {x : Client St DB} (hc : c₀.Initial) (hr : Service.Steps P c₀ c)
    (hx : c.tasks t = some x) (hop : x.op.op = .downloadBackup target)
    (hreads : ∀ limit, ⟨.read limit, .ok 0⟩ ∉ x.events) :
    (sent x.events = [] ∧ x.rest ≠ .ret (.streamed (.ok ()))) ∨
      ∃ info stored expected, resolved target info ∈ x.events ∧
        Fetched P x.hist info stored ∧ Expected P info stored expected ∧
        Faithful info expected (sent x.events) x.rest.returned := by
  obtain ⟨w₀, w, hex, _⟩ := (files_rely (P := P) hc).exec hc.pool hr t x hx
  have hbody : x.op.body = (downloadBackup target >>= fun r => .ret (.streamed r)) := by
    rw [Request.body, hop]
    rfl
  have hruns := hex.runs
  rw [hbody] at hruns
  obtain ⟨q, hq, hrest⟩ := runs_map hruns
  have hover : x.rest.returned = q.returned := by
    rw [hrest, Prog.returned_map]
  have hend : x.rest = .ret (.streamed (.ok ())) → q = .ret (.ok ()) := by
    intro he
    obtain ⟨r, hq, hr⟩ := Prog.map_eq_ret (hrest.symm.trans he)
    cases hr
    exact hq
  rcases runs_downloadBackup hq with ⟨hnone, hq⟩ | ⟨info, file, before, after, he, hd, hserve, hs⟩
  · exact .inl ⟨hnone, fun he => hq (hend he)⟩
  · have hgood : GoodReads after := by
      intro limit n hm
      have hm : ⟨.read limit, .ok n⟩ ∈ x.events := he ▸ List.mem_append_right _ hm
      refine ⟨Nat.one_le_iff_ne_zero.2 ?_, read_le hc hr hx hm⟩
      rintro rfl
      exact hreads limit hm
    have hex : Exec _ _ _ (before ++ after) _ _ := he ▸ hex
    obtain ⟨h, w₁, p, stored, expected, hex, hev, hfetched, hexpected, hfile⟩ :=
      delivered_worlds hd hex fun en hen src dst => decompressed_entry hc hr hx hen
    have hserved : Served info expected (sent after) q.returned := by
      refine runs_serve hserve hgood ?_
      rintro content rest rfl
      exact opened_content hd hev hfile hex
    rw [hs, hover]
    rcases hserved.faithful with ⟨hnone, hq⟩ | hfaithful
    · refine .inl ⟨hnone, fun he => ?_⟩
      rw [hend he] at hq
      cases hq
    · refine .inr ⟨info, stored, expected, ?_, ?_, hexpected, hfaithful⟩
      · rw [he]
        exact List.mem_append_left _ hd.resolved_mem
      · obtain ⟨rest, hext, _⟩ := exec_entry hex
        have hext : x.hist = h ++ rest := hext
        exact hfetched.mono (hext ▸ List.subset_append_left h rest)

end Worlds

def twoBytesWorld : World MapStore Bytes :=
  { someWorld with store := Function.update (fun _ => none) "a" (some (someBackup, [2, 3])) }

/-- A whole download of two bytes, in two reads. -/
def twoReads : List Ev :=
  fetched (.id "a") someBackup "f" ++ [⟨.send (.ok (.info someBackup)), true⟩,
    ⟨.openFile "f", .ok [2, 3]⟩, ⟨.read chunkSize, .ok 1⟩, ⟨.send (.ok (.data [2])), true⟩,
    ⟨.read chunkSize, .ok 1⟩, ⟨.send (.ok (.data [3])), true⟩, ⟨.read chunkSize, .ok 1⟩,
    ⟨.dropFile "f", ()⟩]

/-- One read of the loop that the client gets. -/
theorem streamLoop_chunk {q : Svc Unit} (hz : min n left.length ≠ 0)
    (hr : Runs (streamLoop (left.drop n)) evs q) : Runs (streamLoop left)
      (⟨.read chunkSize, .ok n⟩ :: ⟨.send (.ok (.data (left.take n))), true⟩ :: evs) q := by
  rw [streamLoop]
  simp only [ask, Prog.perform_bind]
  refine .cons _ ?_
  simp only [dif_neg hz]
  refine .cons _ ?_
  exact hr

theorem streamLoop_end (n : Nat) : Runs (streamLoop []) [⟨.read chunkSize, .ok n⟩] (.ret ()) := by
  rw [streamLoop]
  simp only [ask, Prog.perform_bind]
  refine .cons _ ?_
  simp only [List.length_nil, Nat.min_zero, dif_pos]
  exact .nil _

theorem twoReads_exec : ∃ s, Exec (Alone mapPorts 0) ([], twoBytesWorld)
    (Request.body ⟨⟨"db", "db", none⟩, .downloadBackup (.id "a")⟩) twoReads
    (.ret (.streamed (.ok ()))) s := by
  have hloop : Runs (streamLoop [2, 3]) _ (.ret ()) :=
    streamLoop_chunk (n := 1) (by decide) <| streamLoop_chunk (n := 1) (by decide) <|
      streamLoop_end 1
  let close : Svc (Except Error Unit) := .call (.dropFile "f") fun _ => .ret (.ok ())
  have hopen : ∃ s, Exec (Alone mapPorts 0) ([], twoBytesWorld)
      (Request.body ⟨⟨"db", "db", none⟩, .downloadBackup (.id "a")⟩) (twoReads.take 5)
      ((streamLoop [2, 3] >>= fun _ => close) >>= fun r => .ret (.streamed r)) s :=
    ⟨_,
      alone_cons (.get _ (notBusy_ok _) ⟨⟨[2, 3], rfl⟩, rfl, rfl⟩) <|
      alone_cons (.tempFile rfl (by simp [twoBytesWorld, someWorld])) <|
      alone_cons (.download [2, 3] _ ⟨⟨someBackup, rfl⟩, rfl⟩) <|
      alone_cons (.send true) <|
      alone_cons (.openFile rfl) <|
      .nil _ _⟩
  obtain ⟨⟨h, w⟩, hopen⟩ := hopen
  have hreads : ∀ ev ∈ (twoReads.drop 5).take 5, Handle mapPorts 0 w ev.call ev.reply w := by
    intro ev hm
    simp only [twoReads, fetched, List.take, List.drop, List.cons_append, List.nil_append,
      List.mem_cons, List.not_mem_nil, or_false] at hm
    rcases hm with rfl | rfl | rfl | rfl | rfl
    · exact .read (by decide)
    · exact .send true
    · exact .read (by decide)
    · exact .send true
    · exact .read (by decide)
  obtain ⟨h', hloop⟩ := alone_of_runs hloop hreads h
  have hclose := (hloop.bind fun _ => close).bind fun r => .ret (Outcome.streamed r)
  exact ⟨_, hopen.append <| hclose.append <| alone_cons .dropFile (.nil _ _)⟩

theorem stream_faithful_two : ∃ (c₀ c : Service MapStore Bytes) (x : Client MapStore Bytes),
    c₀.Initial ∧ Service.Steps mapPorts c₀ c ∧ c.tasks 0 = some x ∧
    x.op.op = .downloadBackup (.id "a") ∧ x.events = twoReads ∧
    ((sent x.events = [] ∧ x.rest ≠ .ret (.streamed (.ok ()))) ∨
      ∃ info stored expected, resolved (.id "a") info ∈ x.events ∧
        Fetched mapPorts x.hist info stored ∧ Expected mapPorts info stored expected ∧
        Faithful info expected (sent x.events) x.rest.returned) := by
  obtain ⟨⟨h, w⟩, hx⟩ := twoReads_exec
  obtain ⟨c₀, c, hc, _, hr, _, ht, _⟩ := service_runs hx rfl (fun _ => rfl)
    (by simp [twoReads, fetched, resolved])
  have hev : h.map Entry.event = twoReads := exec_events hx
  have hreads : ∀ limit, (⟨.read limit, .ok 0⟩ : Ev) ∉ h.map Entry.event := by
    rw [hev]
    simp [twoReads, fetched, resolved]
  exact ⟨c₀, c, _, hc, hr, ht, rfl, hev, stream_faithful hc hr ht rfl hreads⟩

end FastBackup

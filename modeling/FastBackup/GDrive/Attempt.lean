import FastBackup.GDrive.Outcome

namespace FastBackup
open Interaction Paging
set_option autoImplicit true

namespace GoogleDriveStorage
variable {self : GoogleDriveStorage} {D : DrivePager} {w w' : DriveWorld} {f : Stored}

/-- Successful operations on the local file do what they say to its content `dst`. -/
structure Writes (dst : σ → Option Bytes) (step : σ → (e : DriveCall) → e.Reply → σ → Prop) :
    Prop where
  create : step s .createFile (.ok u) s' → dst s' = some []
  write : step s (.writeFile data) (.ok u) s' → dst s' = (dst s).map (· ++ data)
  flush : step s .flushFile (.ok u) s' → dst s' = dst s

theorem driveStep_writes : Writes DriveWorld.dst (DriveStep D) where
  create hs := by
    cases hs
    rfl
  write hs := by
    cases hs
    rfl
  flush hs := by
    cases hs
    rfl

/-- The failure of a body that does not end. -/
inductive Broken (self : GoogleDriveStorage) : Ending → CallError → Prop where
  | interrupted (text : String) : Broken self (.interrupted text)
      (.transient ("Download interrupted: " ++ text))
  | idle : Broken self .idle
      (.transient ("No download data for " ++ debugDuration self.readIdleTimeout))

/-- How the frame loop ends that goes on from `hashed` and leaves `content` in the file. -/
def ReceiveEnds (self : GoogleDriveStorage) (ending : Ending) (frames : List Frame) (hashed : Bytes)
    (content : Option Bytes) : Except CallError Bytes → Prop
  | .ok all => ending = .complete ∧ all = hashed ++ Body.data ⟨frames, ending⟩ ∧ content = some all
  | .error e => Broken self ending e ∨
      ∃ text, e = .permanent (.io "Could not write download file" text)

/-- What was hashed is what was written. -/
theorem exec_receive {dst : σ → Option Bytes} (hw : Writes dst step)
    (hx : Exec step s (self.receive ending frames hashed) evs (.ret r) s')
    (hd : dst s = some hashed) : ReceiveEnds self ending frames hashed (dst s') r := by
  induction frames generalizing hashed s evs with
  | nil =>
    cases ending with
    | complete =>
      obtain ⟨_, he, rfl⟩ := exec_ret hx
      cases he
      exact ⟨rfl, (List.append_nil _).symm, hd⟩
    | interrupted text =>
      obtain ⟨_, he, _⟩ := exec_ret hx
      cases he
      exact .inl (.interrupted text)
    | idle =>
      obtain ⟨_, he, _⟩ := exec_ret hx
      cases he
      exact .inl .idle
  | cons frame frames ih =>
    cases frame with
    | trailers => exact ih hx hd
    | data bytes =>
      obtain ⟨reply, s₁, evs₁, hs, hrest, _⟩ := exec_call_ret hx
      cases reply with
      | error text =>
        obtain ⟨_, he, _⟩ := exec_ret hrest
        cases he
        exact .inr ⟨text, rfl⟩
      | ok u =>
        have hd₁ : dst s₁ = some (hashed ++ bytes) := by rw [hw.write hs, hd]; rfl
        have hr := ih hrest hd₁
        cases r with
        | error e => exact hr
        | ok all =>
          obtain ⟨hc, hall, hdst⟩ := hr
          refine ⟨hc, ?_, hdst⟩
          rw [hall, List.append_assoc]
          rfl

/-- How an attempt ends that gets `reply` from Drive and leaves `content` in the file. -/
inductive AttemptEnds (self : GoogleDriveStorage) (backup : BackupInfo) (content : Option Bytes) :
    Timed Body → Except CallError Nat → Prop where
  | unanswered (hr : timed "Downloading backup" self.requestTimeout reply = .error e) :
      AttemptEnds self backup content reply (.error e)
  | unwritten (context text : String) :
      AttemptEnds self backup content (some (.ok body)) (.error (.permanent (.io context text)))
  | broken (hb : Broken self body.ending e) :
      AttemptEnds self backup content (some (.ok body)) (.error e)
  | mismatch (hc : body.ending = .complete) (hm : backup.md5 = some expected)
      (hn : eqIgnoreAsciiCase (self.md5Hex body.data) expected = false) :
      AttemptEnds self backup content (some (.ok body))
        (.error (.transient ("Checksum mismatch for '" ++ backup.name ++ "': expected " ++
          expected ++ ", got " ++ self.md5Hex body.data)))
  | intact (hc : body.ending = .complete) (hd : content = some body.data)
      (hm : ∀ expected, backup.md5 = some expected →
        eqIgnoreAsciiCase (self.md5Hex body.data) expected = true) :
      AttemptEnds self backup content (some (.ok body)) (.ok body.data.length)

/-- A complete body is compared with the stored digest. -/
theorem AttemptEnds.checked (hc : body.ending = .complete) (hd : content = some body.data) :
    AttemptEnds self backup content (some (.ok body)) (self.checkMd5 backup body.data) := by
  rw [checkMd5]
  cases hm : backup.md5 with
  | none => exact .intact hc hd (by simp [hm])
  | some expected =>
    cases he : eqIgnoreAsciiCase (self.md5Hex body.data) expected with
    | false =>
      simp only [he, Bool.false_eq_true, if_false]
      exact .mismatch hc hm he
    | true =>
      simp only [he, if_true]
      refine .intact hc hd ?_
      intro expected' hm'
      rw [hm, Option.some.injEq] at hm'
      rw [← hm', he]

theorem exec_save {dst : σ → Option Bytes} (hw : Writes dst step)
    (hx : Exec step s (self.save backup body) evs (.ret res) s') :
    AttemptEnds self backup (dst s') (some (.ok body)) res := by
  obtain ⟨r, s₁, evs₁, hs, hrest, _⟩ := exec_call_ret hx
  cases r with
  | error text =>
    obtain ⟨_, he, _⟩ := exec_ret hrest
    cases he
    exact .unwritten _ text
  | ok u =>
    obtain ⟨r, s₂, evs₂, evs₃, hreceive, hend, _⟩ :=
      exec_bind_ret (p := self.receive body.ending body.frames []) hrest
    have hr := exec_receive hw hreceive (hw.create hs)
    cases r with
    | error e =>
      obtain ⟨_, he, _⟩ := exec_ret hend
      cases he
      rcases hr with hb | ⟨text, rfl⟩
      · exact .broken hb
      · exact .unwritten _ text
    | ok all =>
      obtain ⟨hc, rfl, hd₂⟩ := hr
      obtain ⟨r, s₃, evs₄, hflush, hret, _⟩ := exec_call_ret hend
      cases r with
      | error text =>
        obtain ⟨_, he, _⟩ := exec_ret hret
        cases he
        exact .unwritten _ text
      | ok u =>
        obtain ⟨_, he, rfl⟩ := exec_ret hret
        cases he
        exact .checked hc ((hw.flush hflush).trans hd₂)

/-- An attempt is one request, and what it does with the file. -/
theorem exec_downloadOnce {dst : σ → Option Bytes} (hw : Writes dst step)
    (hx : Exec step s (self.downloadOnce backup) evs (.ret res) s') :
    ∃ reply s₁ last, step s (.filesMedia backup.id) reply s₁ ∧
      evs = ⟨.filesMedia backup.id, reply⟩ :: last ∧ (∀ ev ∈ last, ev.call.isLocal = true) ∧
      AttemptEnds self backup (dst s') reply res := by
  rw [downloadOnce_eq] at hx
  obtain ⟨reply, s₁, last, hs, hrest, rfl⟩ := exec_call_ret hx
  refine ⟨reply, s₁, last, hs, rfl, ?_⟩
  cases ht : timed "Downloading backup" self.requestTimeout reply with
  | error e =>
    simp only [ht] at hrest
    obtain ⟨rfl, he, _⟩ := exec_ret hrest
    cases he
    exact ⟨fun ev hm => (List.not_mem_nil hm).elim, .unanswered ht⟩
  | ok body =>
    simp only [ht] at hrest
    rw [timed_ok] at ht
    subst ht
    exact ⟨local_save.events hrest, exec_save hw hrest⟩

/-- A download that returns `Ok` has written the content of the file. -/
theorem exec_download (hx : Exec (Steady D d) w (self.download backup) evs (.ret (.ok ())) w') :
    ∃ f ∈ d.files, Addresses backup.id f.id ∧ w'.dst = some f.content := by
  obtain ⟨r, w₁, evs₁, evs₂, hretry, hret, _⟩ := exec_bind_ret hx
  obtain ⟨_, he, rfl⟩ := exec_ret hret
  cases r with
  | error e => cases he
  | ok n =>
    obtain ⟨_, _, w₂, _, _, res, _, hcall, _, _, hr⟩ := exec_retryLoop hretry
    cases mapError_ok hr.symm
    have hw : Writes DriveWorld.dst (Steady D d) := ⟨fun hs => driveStep_writes.create hs.2,
      fun hs => driveStep_writes.write hs.2, fun hs => driveStep_writes.flush hs.2⟩
    obtain ⟨reply, w₃, last, ⟨rfl, hs⟩, _, _, hends⟩ := exec_downloadOnce hw hcall
    cases hends with
    | intact hc hd =>
      cases hs with
      | mediaOk hf ha _ hcontent => exact ⟨_, hf, ha, by rw [hd, hcontent hc]⟩
      | mediaFail hr => exact absurd rfl (hr _)

/-- Drive can answer a download. -/
theorem download_runs (self : GoogleDriveStorage) (w : DriveWorld) (hf : f ∈ w.drive.files)
    (hid : f.id = backup.id) (hm : self.checkMd5 backup f.content = .ok n) :
    ∃ evs, Exec (DriveStep D) w (self.download backup) evs (.ret (.ok ()))
      ⟨w.drive, some f.content⟩ := by
  let body : Body := ⟨[.data f.content], .complete⟩
  have hbody : body.data = f.content := List.append_nil _
  have hmedia : DriveStep D w (.filesMedia backup.id) (some (.ok body)) w :=
    .mediaOk hf (hid ▸ w.drive.addressed f hf) ⟨[], by rw [hbody, List.append_nil]⟩
      fun _ => hbody
  have hx : ∃ evs, Exec (DriveStep D) w (self.downloadOnce backup) evs (.ret (.ok n))
      ⟨w.drive, some ([] ++ f.content)⟩ := by
    rw [downloadOnce_eq, ← hm]
    exact ⟨_,
      .cons hmedia <|
      .cons .createFile <|
      .cons .writeFile <|
      .cons (.flushFile (.ok ())) <|
      .nil _ _⟩
  obtain ⟨evs, hx⟩ := hx
  have hretry : Exec (DriveStep D) w (FastBackup.retry self.retry (self.downloadOnce backup)) _
      (.ret (.ok n)) _ :=
    exec_of_failed .nil hx (by rintro ⟨msg, he⟩; cases he)
  exact ⟨_, (hretry.bind _).append (.nil _ _)⟩

/-- The local file of a download: `File::create` truncates, and writes take effect in order. Drive
replies anything. -/
inductive DstStep : Option Bytes → (e : DriveCall) → e.Reply → Option Bytes → Prop where
  | create : DstStep d .createFile (.ok ()) (some [])
  | createFail : DstStep d .createFile (.error text) d
  | write : DstStep d (.writeFile data) (.ok ()) (d.map (· ++ data))
  | writeFail (hp : part <+: data) : DstStep d (.writeFile data) (.error text) (d.map (· ++ part))
  | flush (r : Except String Unit) : DstStep d .flushFile r d
  | remote (he : e.isLocal = false) : DstStep d e r d

theorem dstStep_writes : Writes id DstStep where
  create hs := by
    cases hs with
    | create => rfl
    | remote he => cases he
  write hs := by
    cases hs with
    | write => rfl
    | remote he => cases he
  flush hs := by
    cases hs with
    | flush => rfl
    | remote he => cases he

/-- Attempts that failed transiently and one that decides are a download. -/
theorem exec_download_of_failed {step : σ → (e : DriveCall) → e.Reply → σ → Prop}
    (hf : Failed step self.retry (self.downloadOnce backup) 1 self.retry.baseDelay s earlier n delay
      s₁)
    (hx : Exec step s₁ (self.downloadOnce backup) last (.ret res) s')
    (ht : Transient res → self.retry.attempts ≤ n) :
    Exec step s (self.download backup) (earlier ++ last)
      (.ret ((res.mapError CallError.intoError).map fun _ => ())) s' := by
  have hretry := ((exec_of_failed hf hx ht).bind
    fun r => .ret (r.map fun _ => ())).append (.nil _ _)
  rwa [List.append_nil] at hretry

/-- A download is a number of attempts that failed transiently, each followed by a sleep, and one
that decides: if it succeeds, the file holds exactly its data frames, with the stored digest; if it
fails transiently too, it was the last one allowed and the result is `Unavailable`; a permanent
failure is returned at once. And every such sequence of attempts is a download, where `Failed` asks
of each sleep that twice its length is still a `Duration`: otherwise the doubling of the delay after
it panics and the download does not return. -/
theorem download_intact (self : GoogleDriveStorage) (backup : BackupInfo) (d d' : Option Bytes) :
    (∀ evs r, Exec DstStep d (self.download backup) evs (.ret r) d' →
      ∃ earlier n delay d₁ reply last res,
        Failed DstStep self.retry (self.downloadOnce backup) 1 self.retry.baseDelay d earlier n
          delay d₁ ∧
        evs = earlier ++ ⟨.filesMedia backup.id, reply⟩ :: last ∧
        (∀ ev ∈ last, ev.call.isLocal = true) ∧ AttemptEnds self backup d' reply res ∧
        match res with
        | .ok _ => r = .ok () ∧ ∃ body, reply = some (.ok body) ∧ d' = some body.data ∧
            ∀ m, backup.md5 = some m → eqIgnoreAsciiCase (self.md5Hex body.data) m = true
        | .error (.transient msg) => r = .error (.unavailable msg) ∧ self.retry.attempts ≤ n
        | .error (.badRequest msg) => r = .error (.storage msg)
        | .error (.permanent e) => r = .error e) ∧
    ∀ earlier n delay d₁ last res,
      Failed DstStep self.retry (self.downloadOnce backup) 1 self.retry.baseDelay d earlier n delay
        d₁ →
      Exec DstStep d₁ (self.downloadOnce backup) last (.ret res) d' →
      (Transient res → self.retry.attempts ≤ n) →
      Exec DstStep d (self.download backup) (earlier ++ last)
        (.ret ((res.mapError CallError.intoError).map fun _ => ())) d' := by
  refine ⟨?_, fun _ _ _ _ _ _ hf hx ht => exec_download_of_failed hf hx ht⟩
  intro evs r hx
  obtain ⟨r', d₂, evs₁, evs₂, hretry, hret, rfl⟩ := exec_bind_ret hx
  obtain ⟨rfl, he, rfl⟩ := exec_ret hret
  cases he
  obtain ⟨n, delay, d₁, earlier, evs₂, res, hf, hcall, rfl, ht, rfl⟩ := exec_retryLoop hretry
  obtain ⟨reply, _, last, _, rfl, hlocal, hends⟩ := exec_downloadOnce dstStep_writes hcall
  refine ⟨earlier, n, delay, d₁, reply, last, res, hf, List.append_nil _, hlocal, hends, ?_⟩
  cases res with
  | ok size =>
    cases hends with
    | intact _ hd hm => exact ⟨rfl, _, rfl, hd, hm⟩
  | error e =>
    cases e with
    | transient msg => exact ⟨rfl, ht ⟨msg, rfl⟩⟩
    | badRequest msg => rfl
    | permanent err => rfl

def twice : RetryPolicy := ⟨2, 0, 0, two_lt_u32, durationLimit_pos, durationLimit_pos⟩

def twiceStorage : GoogleDriveStorage := ⟨"f", 0, 0, 0, twice, fun _ => "AB"⟩

def digested : BackupInfo := ⟨"a", "a.pgdump", 0, none, some "ab", .pgCustom, .regular⟩

/-- The second attempt is shorter than the first, which broke off, and than what the file held. -/
theorem download_intact_second : ∃ evs,
    Exec DstStep (some [9, 9]) (twiceStorage.download digested) evs (.ret (.ok ())) (some [4]) ∧
    ∃ body : Body, some [4] = some body.data ∧
      eqIgnoreAsciiCase (twiceStorage.md5Hex body.data) "ab" = true := by
  have hfirst : Exec DstStep (some [9, 9]) (twiceStorage.downloadOnce digested)
      [⟨.filesMedia "a", some (.ok ⟨[.data [1, 2], .data [3]], .interrupted "reset"⟩)⟩,
        ⟨.createFile, .ok ()⟩, ⟨.writeFile [1, 2], .ok ()⟩, ⟨.writeFile [3], .ok ()⟩]
      (.ret (.error (.transient "Download interrupted: reset"))) (some [1, 2, 3]) :=
    .cons (.remote rfl) <| .cons .create <| .cons .write <| .cons .write <| .nil _ _
  have hsecond : Exec DstStep (some [1, 2, 3]) (twiceStorage.downloadOnce digested)
      [⟨.filesMedia "a", some (.ok ⟨[.trailers, .data [4]], .complete⟩)⟩, ⟨.createFile, .ok ()⟩,
        ⟨.writeFile [4], .ok ()⟩, ⟨.flushFile, .ok ()⟩]
      (.ret (.ok 1)) (some [4]) :=
    .cons (.remote rfl) <| .cons .create <| .cons .write <| .cons (.flush _) <| .nil _ _
  obtain ⟨hreturns, hruns⟩ := download_intact twiceStorage digested (some [9, 9]) (some [4])
  have hx := hruns _ _ _ _ _ _ (.cons hfirst (by decide) (.remote rfl) (by decide) .nil) hsecond
    (by rintro ⟨_, he⟩; cases he)
  obtain ⟨_, _, _, _, _, _, res, _, _, _, _, hres⟩ := hreturns _ _ hx
  cases res with
  | ok size =>
    obtain ⟨_, body, _, hd, hm⟩ := hres
    exact ⟨_, hx, body, hd, hm _ rfl⟩
  | error e =>
    cases e with
    | transient => cases hres.1
    | badRequest | permanent => cases hres

end GoogleDriveStorage

end FastBackup

import FastBackup.Interaction.Channel
import FastBackup.Server.Stream

namespace FastBackup
open Interaction
set_option autoImplicit true

def streamBuffer : Nat := 4

/-- The sends of a streaming task. -/
def sends : Sends Call Call.Reply (Except Status DownloadChunk) where
  item
    | .send item => some item
    | _ => none
  took e r := match e, r with
    | .send _, taken => taken
    | _, _ => false

theorem messages_eq_sent (evs : List Ev) : sends.messages evs = sent evs := by
  refine List.filterMap_congr ?_
  intro ev _
  obtain ⟨e, r⟩ := ev
  cases e <;> rfl

variable {St DB : Type} {P : Ports St DB} {w : World St DB}

/-- The streaming task of a `download_backup` with its channel to the client. -/
abbrev Streaming (St DB : Type) :=
  Feed (World St DB) Call Call.Reply (Except Error Unit) (Except Status DownloadChunk) streamBuffer

/-- Around the task anything can happen but to its file. -/
abbrev Streaming.Steps (P : Ports St DB) (t : Nat) (file : Path) :
    Streaming St DB → Streaming St DB → Prop :=
  Feed.Steps (fun w e r w' => Handle P t w e r w') sends fun w w' => w'.folder file = w.folder file

abbrev Streaming.start (w : World St DB) (info : BackupInfo) (file : Path) : Streaming St DB :=
  Feed.start w (serve info file)

variable {s s' : Streaming St DB}

/-- A message changes nothing but the channel. -/
theorem Handle.of_sends (hi : sends.item e = some item) (w : World St DB) (r : e.Reply) :
    Handle P t w e r w := by
  cases e with
  | send item => exact .send r
  | _ => cases hi

theorem serve_shape (info : BackupInfo) (file : Path) :
    Safe (fun _ e => e.streams = true) (fun h _ => ⟨.dropFile file, ()⟩ ∈ h) []
      (serve info file) := by
  have hlast : ∀ h : List Ev, (⟨.dropFile file, ()⟩ : Ev) ∈ h ++ [⟨.dropFile file, ()⟩] :=
    fun h => List.mem_append_right _ (List.mem_singleton_self _)
  refine Safe.call rfl ?_
  intro taken
  cases taken with
  | false => exact Safe.call rfl fun _ => hlast _
  | true =>
    apply Meets.bind (p := streamFile file)
    refine (safe_streamFile (fun _ _ he => he) file).post_mono ?_
    intro h _ _
    exact Safe.call rfl fun _ => hlast h

/-- The file of a streaming task, which was started with `expected` in it. -/
structure Streaming.Kept (info : BackupInfo) (file : Path) (expected : Bytes)
    (s : Streaming St DB) : Prop where
  live : (⟨.dropFile file, ()⟩ : Ev) ∉ s.events → s.state.folder file = some expected
  gone : (⟨.dropFile file, ()⟩ : Ev) ∈ s.events → s.state.folder file = none
  opened : ∀ content rest, s.events = ⟨.send (.ok (.info info)), true⟩ ::
    ⟨.openFile file, .ok content⟩ :: rest → content = expected
  reads : ∀ limit n, ⟨.read limit, .ok n⟩ ∈ s.events → n ≤ limit

theorem snoc_eq_cons_cons {l rest : List α} (h : l ++ [x] = a :: b :: rest) :
    (l = [a] ∧ x = b) ∨ ∃ rest', l = a :: b :: rest' := by
  match l, h with
  | [], h => simp at h
  | [y], h =>
    simp only [List.singleton_append, List.cons.injEq] at h
    exact .inl ⟨by rw [h.1], h.2.1⟩
  | y :: z :: l, h =>
    simp only [List.cons_append, List.cons.injEq] at h
    exact .inr ⟨l, by rw [h.1, h.2.1]⟩

theorem Streaming.Kept.reply {r : e.Reply} (hk : s.Kept info file expected)
    (he : e.streams = true) (hh : Handle P t s.state e r w) (rest : Svc (Except Error Unit))
    (chan : Channel (Except Status DownloadChunk) streamBuffer) :
    Streaming.Kept info file expected (s.reply e r w rest chan) := by
  have hfolder : (⟨.dropFile file, ()⟩ : Ev) ≠ ⟨e, r⟩ →
      w.folder file = s.state.folder file := by
    intro hne
    refine hh.folder_eq fun ht => ?_
    cases e with
    | dropFile f =>
      cases ht
      exact hne rfl
    | openFile | read | send => cases ht
    | _ => cases he
  refine ⟨?_, ?_, ?_, ?_⟩
  · intro hn
    have hn : (⟨.dropFile file, ()⟩ : Ev) ∉ s.events ++ [⟨e, r⟩] := hn
    rw [List.mem_append, not_or, List.mem_singleton] at hn
    exact (hfolder hn.2).trans (hk.live hn.1)
  · intro hm
    by_cases hd : (⟨.dropFile file, ()⟩ : Ev) = ⟨e, r⟩
    · cases hd
      cases hh
      exact World.write_self ..
    · have hm : (⟨.dropFile file, ()⟩ : Ev) ∈ s.events ++ [⟨e, r⟩] := hm
      rw [List.mem_append, List.mem_singleton, or_iff_left hd] at hm
      exact (hfolder hd).trans (hk.gone hm)
  · intro content rest' hev
    rcases snoc_eq_cons_cons hev with ⟨hfirst, hlast⟩ | ⟨rest'', hold⟩
    · cases hlast
      cases hh with
      | openFile hf =>
        have hlive := hk.live (by rw [hfirst]; simp)
        exact Option.some.inj (hf.symm.trans hlive)
    · exact hk.opened content rest'' hold
  · intro limit n hm
    rcases List.mem_append.1 hm with hm | hm
    · exact hk.reads limit n hm
    · cases List.mem_singleton.1 hm
      cases hh with
      | read hn => exact hn

theorem Streaming.Kept.step (hk : s.Kept info file expected)
    (hsound : Feed.Sound (serve info file) sends s)
    (hs : Feed.Step (fun w e r w' => Handle P t w e r w') sends
      (fun w w' => w'.folder file = w.folder file) s s') : s'.Kept info file expected := by
  have hcall : ∀ e, ∀ k : e.Reply → Svc (Except Error Unit), s.rest = .call e k →
      e.streams = true := by
    intro e k hrest
    have hrun := hsound.runs
    rw [hrest] at hrun
    exact (serve_shape info file).pre_of_runs hrun
  cases hs with
  | move hm =>
    cases hm with
    | act hrest _ hh => exact hk.reply (hcall _ _ hrest) hh _ _
    | push hrest hi | refuse hrest hi =>
      exact hk.reply (hcall _ _ hrest) (Handle.of_sends (P := P) (t := t) hi _ _) _ _
    | take => exact ⟨hk.live, hk.gone, hk.opened, hk.reads⟩
  | leave => exact ⟨hk.live, hk.gone, hk.opened, hk.reads⟩
  | env he =>
    refine ⟨fun hn => ?_, fun hm => ?_, hk.opened, hk.reads⟩
    · exact he.trans (hk.live hn)
    · exact he.trans (hk.gone hm)

theorem Streaming.kept_of_steps (hf : w.folder file = some expected)
    (hs : Streaming.Steps P t file (.start w info file) s) : s.Kept info file expected := by
  induction hs with
  | refl =>
    refine ⟨fun _ => hf, ?_, ?_, ?_⟩
    · intro hm
      cases hm
    · intro content rest he
      cases he
    · intro limit n hm
      cases hm
  | tail hs hst ih => exact ih.step (Feed.sound_of_steps hs) hst

theorem Streaming.served (hf : w.folder file = some expected)
    (hs : Streaming.Steps P t file (.start w info file) s)
    (hreads : ∀ limit, ⟨.read limit, .ok 0⟩ ∉ s.events) :
    Served info expected (sent s.events) s.rest.returned := by
  have hk := kept_of_steps hf hs
  refine runs_serve (Feed.sound_of_steps hs).runs ?_ hk.opened
  intro limit n hm
  refine ⟨Nat.one_le_iff_ne_zero.2 ?_, hk.reads limit n hm⟩
  rintro rfl
  exact hreads limit hm

theorem dataOf_length_le (hm : ∀ m ∈ ms, (dataOf [m]).length ≤ n) :
    (dataOf ms).length ≤ ms.length * n := by
  induction ms with
  | nil => simp [dataOf]
  | cons m ms ih =>
    have hrest := ih fun m' hm' => hm m' (List.mem_cons_of_mem _ hm')
    have hfirst := hm m (List.mem_cons_self ..)
    have hcut : dataOf (m :: ms) = dataOf [m] ++ dataOf ms := by
      simp [dataOf]
    rw [hcut, List.length_append, List.length_cons, Nat.succ_mul]
    omega

/-- Each message carries at most one chunk. -/
theorem Faithful.chunk_le (hf : Faithful info expected ms stopped) (hm : m ∈ ms.map Prod.fst) :
    (dataOf [m]).length ≤ 1024 * 1024 := by
  obtain ⟨chunks, last, hms, hsizes, hlast⟩ := hf.messages
  rw [hms, List.cons_append, List.mem_cons, List.mem_append] at hm
  rcases hm with rfl | hm | hm
  · exact Nat.zero_le _
  · obtain ⟨c, hc, rfl⟩ := List.mem_map.1 hm
    have hle := (hsizes c hc).2
    simpa [dataOf] using hle
  · rcases hlast with rfl | ⟨status, rfl⟩
    · cases hm
    · rw [List.mem_singleton.1 hm]
      exact Nat.zero_le _

/-- Behind the bounded channel the client of a download gets the messages of the task in order,
each once: what it has taken is a first part of them, and what waits for it is at most four
chunks. If it sees the end of the stream and no error, it has got the info and the whole file. -/
theorem stream_delivered (hf : w.folder file = some expected)
    (hs : Streaming.Steps P t file (.start w info file) s)
    (hreads : ∀ limit, ⟨.read limit, .ok 0⟩ ∉ s.events) :
    (dataOf s.chan.buffer).length ≤ 4 * (1024 * 1024) ∧
    dataOf s.chan.taken <+: expected ∧
    (s.chan.taken = [] ∨ ∃ ms, s.chan.taken = .ok (.info info) :: ms) ∧
    (s.rest.returned = true → s.chan.receiving = true → s.chan.buffer = [] →
      (∀ m ∈ s.chan.taken, ∃ c, m = .ok c) →
      s.chan.taken ≠ [] ∧ dataOf s.chan.taken = expected) := by
  have hsound := Feed.sound_of_steps hs
  have hopen := hsound.open_eq
  have hleft := hsound.left_prefix
  rw [messages_eq_sent] at hopen hleft
  have hleft := hleft.map Prod.fst
  rw [List.map_map, show Prod.fst ∘ (fun a => (a, true)) = id from rfl, List.map_id] at hleft
  have hbuffer : ∀ m ∈ s.chan.buffer, m ∈ (sent s.events).map Prod.fst := by
    intro m hm
    cases hr : s.chan.receiving with
    | false =>
      rw [s.chan.cleared hr] at hm
      cases hm
    | true =>
      rw [hopen hr]
      simp [hm]
  rcases (Streaming.served hf hs hreads).faithful with ⟨hnone, hover⟩ | hfaith
  · rw [hnone] at hleft hbuffer
    have htaken := List.prefix_nil.1 hleft
    have hempty : s.chan.buffer = [] := List.eq_nil_iff_forall_not_mem.2 fun m hm => by
      cases hbuffer m hm
    refine ⟨by rw [hempty]; exact Nat.zero_le _, by rw [htaken]; exact List.nil_prefix,
      .inl htaken, ?_⟩
    intro hret
    rw [hover] at hret
    cases hret
  · refine ⟨?_, hfaith.arrived _ hleft, ?_, ?_⟩
    · have hle := dataOf_length_le fun m hm => hfaith.chunk_le (hbuffer m hm)
      exact hle.trans (Nat.mul_le_mul_right _ s.chan.bounded)
    · obtain ⟨chunks, last, hms, _⟩ := hfaith.messages
      rw [hms, List.cons_append] at hleft
      rcases List.prefix_cons_iff.1 hleft with htaken | ⟨rest, htaken, _⟩
      · exact .inl htaken
      · exact .inr ⟨rest, htaken⟩
    · intro hret hr hempty hok
      have hall := hopen hr
      rw [hempty, List.append_nil] at hall
      have hwhole := hfaith.whole hret ?_
      · refine ⟨?_, ?_⟩
        · intro htaken
          rw [htaken] at hall
          obtain ⟨chunks, last, hms, _⟩ := hfaith.messages
          rw [hall] at hms
          cases hms
        · rw [hall, List.map_map, show Prod.fst ∘ (fun a => (a, true)) = id from rfl,
            List.map_id] at hwhole
          exact hwhole
      · intro m hm
        rw [hall] at hm
        obtain ⟨a, ha, rfl⟩ := List.mem_map.1 hm
        obtain ⟨c, rfl⟩ := hok a ha
        exact ⟨c, rfl⟩

/-- A stream never hangs: every run of the task with its client ends, whatever the client does,
as long as anything is left one of the two can move, and when the task is over its file is gone. -/
theorem stream_ends (hf : w.folder file = some expected)
    (hs : Streaming.Steps P t file (.start w info file) s) :
    Acc (fun y x : Streaming St DB =>
      x.Step (fun w e r w' => Handle P t w e r w') sends (fun _ _ => False) y) s ∧
    ((∃ s', s.Move (fun w e r w' => Handle P t w e r w') sends s') ∨
      s.rest.returned = true ∧ s.chan.buffer = []) ∧
    (s.rest.returned = true → s.state.folder file = none) := by
  have hrun := (Feed.sound_of_steps hs).runs
  refine ⟨Feed.terminates s, Feed.progress (by decide) ?_ ?_, ?_⟩
  · intro e k hk _
    rw [hk] at hrun
    have he : e.streams = true := (serve_shape info file).pre_of_runs hrun
    cases e with
    | openFile f => exact ⟨.error "", _, .openFileError⟩
    | read limit => exact ⟨.error "", _, .readError⟩
    | send item => exact ⟨true, _, .send true⟩
    | dropFile f => exact ⟨(), _, .dropFile⟩
    | _ => cases he
  · intro e item hi taken
    cases e with
    | send item => exact ⟨taken, rfl⟩
    | _ => cases hi
  · intro hret
    cases hk : s.rest with
    | call e k =>
      rw [hk] at hret
      cases hret
    | ret r =>
      rw [hk] at hrun
      exact (Streaming.kept_of_steps hf hs).gone ((serve_shape info file).post_of_runs hrun)

/-- A stream of two bytes to a client that takes each message at once. -/
theorem two_streamed : ∃ s : Streaming MapStore Bytes,
    Streaming.Steps mapPorts 0 "f" (.start (someWorld.write "f" (some [2, 3])) someBackup "f") s ∧
    s.events = twoReads.drop 3 ∧ s.rest.returned = true ∧ s.chan.receiving = true ∧
    s.chan.buffer = [] := by
  let w : World MapStore Bytes := someWorld.write "f" (some [2, 3])
  let eager := Feed.Eager (fun w e r w' => Handle mapPorts 0 w e r w') sends
  let close : Svc (Except Error Unit) := .call (.dropFile "f") fun _ => .ret (.ok ())
  have hloop : Runs (streamLoop [2, 3]) ((twoReads.drop 5).take 5) (.ret ()) :=
    streamLoop_chunk (n := 1) (by decide) <| streamLoop_chunk (n := 1) (by decide) <|
      streamLoop_end 1
  have hreads : ∀ ev ∈ (twoReads.drop 5).take 5, eager w ev.call ev.reply w := by
    intro ev hm
    simp only [twoReads, fetched, List.take, List.drop, List.cons_append, List.nil_append,
      List.mem_cons, List.not_mem_nil, or_false] at hm
    have hread : Handle mapPorts 0 w (.read chunkSize) (.ok 1) w := .read (by decide)
    rcases hm with rfl | rfl | rfl | rfl | rfl
    · exact hread
    · exact ⟨rfl, rfl⟩
    · exact hread
    · exact ⟨rfl, rfl⟩
    · exact hread
  have hopen : Exec eager w (serve someBackup "f") ((twoReads.drop 3).take 2)
      (streamLoop [2, 3] >>= fun _ => close) w := by
    have hsend : eager w (.send (.ok (.info someBackup))) true w := ⟨rfl, rfl⟩
    have hfile : Handle mapPorts 0 w (.openFile "f") (.ok [2, 3]) w := .openFile rfl
    have hstep : eager w (.openFile "f") (.ok [2, 3]) w := hfile
    exact .cons hsend (.cons hstep (.nil _ _))
  have hclose : Exec eager w close [⟨.dropFile "f", ()⟩] (.ret (.ok ())) (w.write "f" none) := by
    have hdrop : Handle mapPorts 0 w (.dropFile "f") () (w.write "f" none) := .dropFile
    have hstep : eager w (.dropFile "f") () (w.write "f" none) := hdrop
    exact .cons hstep (.nil _ _)
  have hx := hopen.append (((hloop.exec_still hreads).bind fun _ => close).append hclose)
  obtain ⟨y, hs, _, hrest, hev, hr, hb⟩ : ∃ y : Streaming MapStore Bytes,
      Streaming.Steps mapPorts 0 "f" (.start w someBackup "f") y ∧ y.state = w.write "f" none ∧
      y.rest = .ret (.ok ()) ∧ y.events = [] ++ twoReads.drop 3 ∧ y.chan.receiving = true ∧
      y.chan.buffer = [] := Feed.follows (by decide) hx _ rfl rfl rfl rfl
  exact ⟨y, hs, hev, by rw [hrest]; rfl, hr, hb⟩

theorem stream_delivered_two : ∃ s : Streaming MapStore Bytes,
    Streaming.Steps mapPorts 0 "f" (.start (someWorld.write "f" (some [2, 3])) someBackup "f") s ∧
    s.rest.returned = true ∧ s.chan.receiving = true ∧ s.chan.buffer = [] ∧
    ((∀ m ∈ s.chan.taken, ∃ c, m = .ok c) → dataOf s.chan.taken = [2, 3]) := by
  obtain ⟨s, hs, hev, hret, hr, hb⟩ := two_streamed
  have hreads : ∀ limit, (⟨.read limit, .ok 0⟩ : Ev) ∉ s.events := by
    rw [hev]
    simp [twoReads, fetched]
  refine ⟨s, hs, hret, hr, hb, fun hok => ?_⟩
  exact ((stream_delivered (World.write_self ..) hs hreads).2.2.2 hret hr hb hok).2

theorem stream_ends_two : ∃ s : Streaming MapStore Bytes,
    Streaming.Steps mapPorts 0 "f" (.start (someWorld.write "f" (some [2, 3])) someBackup "f") s ∧
    s.rest.returned = true ∧ s.state.folder "f" = none := by
  obtain ⟨s, hs, _, hret, _⟩ := two_streamed
  exact ⟨s, hs, hret, (stream_ends (World.write_self ..) hs).2.2 hret⟩

end FastBackup

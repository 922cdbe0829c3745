import FastBackup.GDrive.Listing

namespace FastBackup
open Interaction
set_option autoImplicit true

/-- The delay of the sleep after attempt `i`, counted from 0. -/
def RetryPolicy.delay (policy : RetryPolicy) : Nat → Duration
  | 0 => policy.baseDelay
  | i + 1 => min (policy.delay i * 2) policy.maxDelay

/-- The calls of the first `m` attempts, with the sleep after each. -/
def RetryPolicy.tries (policy : RetryPolicy) (evs : Nat → List DriveEv) : Nat → List DriveEv
  | 0 => []
  | m + 1 => policy.tries evs m ++ (evs m ++ [⟨.sleep (policy.delay m), ()⟩])

/-- A world in which the attempts have the given outcomes: attempt `i` leads from `a i` to `b i`
with the calls `evs i`, and the sleep after it to `a (i + 1)`. -/
structure Attempts (step : σ → (e : DriveCall) → e.Reply → σ → Prop)
    (call : Drv (Except CallError T)) (outcomes : Nat → Except CallError T) (a b : Nat → σ)
    (evs : Nat → List DriveEv) : Prop where
  run (i : Nat) : Exec step (a i) call (evs i) (.ret (outcomes i)) (b i)
  sleep (i : Nat) (delay : Duration) : step (b i) (.sleep delay) () (a (i + 1))

/-- `m + 1` is the smaller of `max 1 attempts` and the index, counted from 1, of the first outcome
that is not transient. -/
structure LastAttempt (policy : RetryPolicy) (outcomes : Nat → Except CallError T) (m : Nat) :
    Prop where
  lt : m < max 1 policy.attempts
  before : ∀ i < m, Transient (outcomes i)
  decided : m + 1 = max 1 policy.attempts ∨ ¬ Transient (outcomes m)

/-- In every such world `retry` makes `m + 1` attempts with a sleep after each but the last, and
returns the last outcome. Its counter, which is `i + 1` before attempt `i`, stays a `u32`. -/
def RetriesAs (policy : RetryPolicy) (outcomes : Nat → Except CallError T) (m : Nat) : Prop :=
  ∀ (σ : Type) (step : σ → (e : DriveCall) → e.Reply → σ → Prop)
    (call : Drv (Except CallError T)) (a b : Nat → σ) (evs : Nat → List DriveEv),
    Attempts step call outcomes a b evs →
    (∀ i ≤ m, i + 1 < 2 ^ 32 ∧ Exec step (a 0) (retry policy call) (policy.tries evs i)
      (retryLoop policy call (i + 1) (policy.delay i)) (a i)) ∧
    Exec step (a 0) (retry policy call) (policy.tries evs m ++ evs m)
      (.ret ((outcomes m).mapError CallError.intoError)) (b m)

section Count
variable {policy : RetryPolicy} {call : Drv (Except CallError T)}
  {outcomes : Nat → Except CallError T} {step : σ → (e : DriveCall) → e.Reply → σ → Prop}
  {a b : Nat → σ} {evs : Nat → List DriveEv}

theorem lastAttempt_exists (policy : RetryPolicy) (outcomes : Nat → Except CallError T) :
    ∃ m, LastAttempt policy outcomes m := by
  have hsearch : ∀ n, (∀ i < n, Transient (outcomes i)) ∨
      ∃ m < n, (∀ i < m, Transient (outcomes i)) ∧ ¬ Transient (outcomes m) := by
    intro n
    induction n with
    | zero => exact .inl fun i hi => absurd hi (Nat.not_lt_zero i)
    | succ n ih =>
      rcases ih with hall | ⟨m, hm, hfirst⟩
      · by_cases hn : Transient (outcomes n)
        · refine .inl fun i hi => ?_
          rcases Nat.lt_succ_iff_lt_or_eq.1 hi with hi | rfl
          · exact hall i hi
          · exact hn
        · exact .inr ⟨n, n.lt_succ_self, hall, hn⟩
      · exact .inr ⟨m, hm.trans n.lt_succ_self, hfirst⟩
  rcases hsearch (max 1 policy.attempts - 1) with hall | ⟨m, hm, hbefore, hdecided⟩
  · exact ⟨_, by omega, hall, .inl (by omega)⟩
  · exact ⟨m, by omega, hbefore, .inr hdecided⟩

theorem LastAttempt.unique (hm : LastAttempt policy outcomes m)
    (hm' : LastAttempt policy outcomes m') : m = m' := by
  have hle : ∀ m m', LastAttempt policy outcomes m → LastAttempt policy outcomes m' → m ≤ m' := by
    intro m m' hm hm'
    by_contra hlt
    rw [Nat.not_le] at hlt
    rcases hm'.decided with hd | hd
    · have := hm.lt
      omega
    · exact hd (hm.before m' hlt)
  exact Nat.le_antisymm (hle m m' hm hm') (hle m' m hm' hm)

/-- The first attempts of `retry`, as long as the delays can be doubled. -/
theorem Attempts.exec_tries (ha : Attempts step call outcomes a b evs)
    (hlast : LastAttempt policy outcomes m) (hi : i ≤ m)
    (hfit : ∀ j < i, policy.delay j * 2 < durationLimit) :
    Exec step (a 0) (retry policy call) (policy.tries evs i)
      (retryLoop policy call (i + 1) (policy.delay i)) (a i) := by
  induction i with
  | zero => exact .nil _ _
  | succ i ih =>
    apply (ih (Nat.le_of_succ_le hi) fun j hj => hfit j (Nat.lt_succ_of_lt hj)).append
    obtain ⟨msg, hmsg⟩ := hlast.before i hi
    have hx := ha.run i
    rw [hmsg] at hx
    have hn : i + 1 < policy.attempts := by
      have := hlast.lt
      omega
    have hsleep := exec_attempt hx hn (ha.sleep i (policy.delay i))
    rwa [double, if_pos (hfit i (Nat.lt_succ_self i))] at hsleep

theorem retriesAs_of_fits (hlast : LastAttempt policy outcomes m)
    (hfit : ∀ i < m, policy.delay i * 2 < durationLimit) : RetriesAs policy outcomes m := by
  intro σ step call a b evs ha
  refine ⟨fun i hi => ⟨?_, ha.exec_tries hlast hi fun j hj => hfit j (hj.trans_le hi)⟩, ?_⟩
  · have hlt := hlast.lt
    have hmax := policy.attempts_lt
    omega
  · apply (ha.exec_tries hlast (Nat.le_refl m) hfit).append
    refine exec_of_failed .nil (ha.run m) ?_
    intro ht
    rcases hlast.decided with hd | hd
    · omega
    · exact absurd ht hd

/-- A call of one request whose replies are numbered. -/
def numberedCall (outcomes : Nat → Except CallError T) : Drv (Except CallError T) :=
  .call (.filesMedia "") fun r => .ret (match r with
    | some (.error (.failure i)) => outcomes i
    | _ => outcomes 0)

def numberedEvs (i : Nat) : List DriveEv := [⟨.filesMedia "", some (.error (.failure i))⟩]

/-- Whatever a world replies. -/
abbrev AnyReply (_ : Unit) (e : DriveCall) (_ : e.Reply) (_ : Unit) : Prop := True

theorem numbered_attempts (outcomes : Nat → Except CallError T) :
    Attempts AnyReply (numberedCall outcomes) outcomes (fun _ => ()) (fun _ => ())
      numberedEvs where
  run _ := .cons trivial (.nil _ _)
  sleep _ _ := trivial

theorem fits_of_retriesAs (hlast : LastAttempt policy outcomes m)
    (hr : RetriesAs policy outcomes m) : ∀ i < m, policy.delay i * 2 < durationLimit := by
  intro i hi
  obtain ⟨hcount, _⟩ := hr _ _ _ _ _ _ (numbered_attempts outcomes)
  have hx := (hcount i (Nat.le_of_lt hi)).2
  obtain ⟨p, u, hx₁, hx₂⟩ := (hcount (i + 1) hi).2.split
  cases hx₁.runs.unique hx.runs
  obtain ⟨msg, hmsg⟩ := hlast.before i hi
  have hrun := (numbered_attempts outcomes).run i
  rw [hmsg] at hrun
  have hn : i + 1 < policy.attempts := by
    have := hlast.lt
    omega
  -- after the sleep the loop either goes on or has panicked
  have hsleep := exec_attempt hrun hn ((numbered_attempts outcomes).sleep i (policy.delay i))
  have heq := hx₂.runs.unique hsleep.runs
  by_contra hbig
  rw [double, if_neg hbig, retryLoop_eq] at heq
  cases heq

end Count

/-- `retry` makes the right number of calls and reports the right outcome if and only if every delay
that it doubles stays a `Duration` when doubled. -/
theorem retry_counts_iff (policy : RetryPolicy) (outcomes : Nat → Except CallError T) :
    ∃ m, (∀ m', LastAttempt policy outcomes m' ↔ m' = m) ∧
      (RetriesAs policy outcomes m ↔ ∀ i < m, policy.delay i * 2 < durationLimit) := by
  obtain ⟨m, hm⟩ := lastAttempt_exists policy outcomes
  refine ⟨m, fun m' => ⟨fun hm' => hm'.unique hm, fun he => he ▸ hm⟩, ?_, ?_⟩
  · exact fits_of_retriesAs hm
  · exact retriesAs_of_fits hm

/-- Two attempts, with a first delay that cannot be doubled and a maximum of two seconds. -/
def hugePolicy : RetryPolicy :=
  ⟨2, durationLimit - 1, 2000000000, two_lt_u32, by decide, by decide⟩

def alwaysTransient : Nat → Except CallError Unit := fun _ => .error (.transient "x")

/-- Two calls are due, but the loop panics after the first one. -/
theorem retry_panics : LastAttempt hugePolicy alwaysTransient 1 ∧
    ∃ k, Runs (retry hugePolicy (numberedCall alwaysTransient))
      (numberedEvs 0 ++ [⟨.sleep hugePolicy.baseDelay, ()⟩]) (.call .panic k) := by
  refine ⟨⟨by decide, fun _ _ => ⟨"x", rfl⟩, .inl (by decide)⟩, ?_⟩
  have hattempts := numbered_attempts alwaysTransient
  have hn : 1 < hugePolicy.attempts := by decide
  have hsleep := exec_attempt (hattempts.run 0) hn (hattempts.sleep 0 hugePolicy.baseDelay)
  rw [double, if_neg (by decide)] at hsleep
  exact ⟨_, hsleep.runs⟩

/-- After `ev` in an attempt before the last one, the loop sleeps, and if the delay can be doubled
it makes the request again. -/
def TriedAgain (policy : RetryPolicy) (call : Drv (Except CallError T)) (ev : DriveEv) : Prop :=
  ∀ n delay, n < policy.attempts →
    Runs (retryLoop policy call n delay) [ev] (.call (.sleep delay) fun _ =>
      double delay >>= fun d => retryLoop policy call (n + 1) (min d policy.maxDelay)) ∧
    (delay * 2 < durationLimit → ∃ k, Runs (retryLoop policy call n delay)
      [ev, ⟨.sleep delay, ()⟩] (.call ev.call k))

theorem triedAgain_once {e : DriveCall} {f : e.Reply → Except CallError T} {r : e.Reply}
    (msg : String) (hf : f r = .error (.transient msg)) :
    TriedAgain policy (.call e fun r => .ret (f r)) ⟨e, r⟩ := by
  intro n delay hn
  have hsleep : Runs (retryLoop policy (.call e fun r => .ret (f r)) n delay) [⟨e, r⟩]
      (.call (.sleep delay) fun _ => double delay >>= fun d =>
        retryLoop policy (.call e fun r => .ret (f r)) (n + 1) (min d policy.maxDelay)) := by
    rw [retryLoop_eq, ← afterAttempt_transient hn, ← hf]
    exact .cons r (.nil _)
  refine ⟨hsleep, fun hd => ?_⟩
  have hagain := hsleep.snoc ()
  rw [double, if_pos hd, Prog.pure_eq, Prog.ret_bind,
    retryLoop_eq (n := n + 1), Prog.call_bind] at hagain
  exact ⟨_, hagain⟩

namespace GoogleDriveStorage
/-- The requests of `list`, `latest`, `get` and `delete` that fail with `e` before their last
attempt are made again. -/
structure Repeated (S : GoogleDriveStorage) (e : DriveError) : Prop where
  list (size : Nat) (token : Option String) : TriedAgain S.retry
    (do
      let r ← S.listOnce (folderQuery S.folderId) size token
      return r.mapError (tokenError token))
    ⟨.filesList (folderQuery S.folderId) newestFirstOrder (min size (2 ^ 31 - 1)) listFields token,
      some (.error e)⟩
  latest (token : Option String) : TriedAgain S.retry
    (S.listOnce (latestQuery S.folderId) latestPageSize token)
    ⟨.filesList (latestQuery S.folderId) newestFirstOrder latestPageSize listFields token,
      some (.error e)⟩
  get (id : String) : TriedAgain S.retry
    (do
      let r ← askDrive (.filesGet id fileFields)
      return timed "Getting backup" S.requestTimeout r)
    ⟨.filesGet id fileFields, some (.error e)⟩
  delete (id : String) : TriedAgain S.retry
    (do
      let r ← askDrive (.filesDelete id)
      return timed "Deleting backup" S.requestTimeout r)
    ⟨.filesDelete id, some (.error e)⟩

theorem repeated_of_transient (self : GoogleDriveStorage)
    (ht : ∀ op, ∃ msg, classify op e = .transient msg) : self.Repeated e where
  list size token := by
    obtain ⟨msg, hm⟩ := ht "Listing backups"
    apply triedAgain_once msg
    simp only [timed, hm]
    rfl
  latest token := by
    obtain ⟨msg, hm⟩ := ht "Listing backups"
    apply triedAgain_once msg
    simp only [timed, hm]
    rfl
  get id := by
    obtain ⟨msg, hm⟩ := ht "Getting backup"
    apply triedAgain_once msg
    simp only [timed, hm]
  delete id := by
    obtain ⟨msg, hm⟩ := ht "Deleting backup"
    apply triedAgain_once msg
    simp only [timed, hm]

end GoogleDriveStorage

/-- Server-side trouble is retried if and only if the body of the response is no JSON, or names a
status that is worth another attempt. -/
theorem server_trouble_iff (status : Nat) (hs : status = 429 ∨ 500 ≤ status ∧ status ≤ 599)
    (body : Option Json) :
    ((∀ op, ∃ msg, classify op (reported status body) = .transient msg) ∧
      ∀ self : GoogleDriveStorage, self.Repeated (reported status body)) ↔
    body = none ∨ ∃ value code, body = some value ∧ value.errorCode = some code ∧
      Retryable code value.errorReason := by
  have htransient : (∀ op, ∃ msg, classify op (reported status body) = .transient msg) ↔
      body = none ∨ ∃ value code, body = some value ∧ value.errorCode = some code ∧
        Retryable code value.errorReason := by
    cases body with
    | none =>
      refine ⟨fun _ => .inl rfl, fun _ op => ?_⟩
      rw [reported, classify, classifyStatus_transient]
      rcases hs with hs | hs
      · exact .inl hs
      · exact .inr (.inl hs)
    | some value =>
      simp only [reported, classify]
      cases hc : value.errorCode with
      | none => simp [classifyJson_none hc, hc]
      | some code => simp [classifyJson_some hc, classifyStatus_transient, hc]
  rw [← htransient]
  exact and_iff_left_of_imp fun ht self => self.repeated_of_transient ht

theorem server_trouble_text :
    (∀ op, ∃ msg, classify op (reported 503 none) = .transient msg) ∧
      ∀ self : GoogleDriveStorage, self.Repeated (reported 503 none) :=
  (server_trouble_iff 503 (by decide) none).2 (.inl rfl)

/-- A 503 whose JSON body names no status ends a listing at its first attempt of two. -/
theorem server_trouble_permanent :
    let e := reported 503 (some (.obj [("message", .str "overloaded")]))
    (¬ ∃ msg, classify "Listing backups" e = .transient msg) ∧
    Runs (GoogleDriveStorage.twiceStorage.list 20 none)
      [⟨.filesList (folderQuery "f") newestFirstOrder 20 listFields none, some (.error e)⟩]
      (.ret (.error (.storage "Listing backups: \x7b\"message\":\"overloaded\"\x7d"))) := by
  refine ⟨?_, ?_⟩
  · rintro ⟨msg, he⟩
    cases he
  · rw [GoogleDriveStorage.list_eq, retry, retryLoop_eq]
    exact .cons _ (.nil _)

end FastBackup

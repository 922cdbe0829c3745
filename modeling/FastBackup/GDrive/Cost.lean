import FastBackup.GDrive.Backoff
import FastBackup.GDrive.Outcome
import FastBackup.Interaction.Cost

namespace FastBackup
open Interaction
set_option autoImplicit true

/-- How often a call uses the Drive API; an upload may take several requests. -/
def DriveCall.apiCalls : DriveCall → Nat
  | .filesList .. | .filesGet .. | .filesMedia _ | .filesDelete _ | .filesCreate .. => 1
  | .openFile | .createFile | .writeFile _ | .flushFile | .sleep _ | .panic => 0

/-- The sleep that a call asks for. -/
def DriveCall.slept : DriveCall → Duration
  | .sleep delay => delay
  | _ => 0

/-- What `k` sleeps cost, the first of them after attempt `i`. -/
def RetryPolicy.pauses (policy : RetryPolicy) (cost : DriveCall → Nat) (i k : Nat) : Nat :=
  ((List.range' i k).map fun j => cost (.sleep (policy.delay j))).sum

theorem RetryPolicy.pauses_succ {policy : RetryPolicy} : policy.pauses cost i (k + 1) =
    cost (.sleep (policy.delay i)) + policy.pauses cost (i + 1) k := by
  rw [pauses, List.range'_succ, List.map_cons, List.sum_cons, pauses]

theorem RetryPolicy.pauses_concat {policy : RetryPolicy} : policy.pauses cost i (k + 1) =
    policy.pauses cost i k + cost (.sleep (policy.delay (i + k))) := by
  rw [pauses, List.range'_1_concat, List.map_append, List.sum_append, pauses, List.map_singleton,
    List.sum_singleton]

/-- The cost of `max 1 attempts` calls that cost `n` each, with the sleeps between them. -/
def RetryPolicy.bill (policy : RetryPolicy) (cost : DriveCall → Nat) (n : Nat) : Nat :=
  max 1 policy.attempts * n + policy.pauses cost 0 (policy.attempts - 1)

section Retry
variable {policy : RetryPolicy} {cost : DriveCall → Nat} {call : Drv (Except CallError T)}

theorem within_double (hp : cost .panic = 0) {f : Duration → Drv α}
    (hf : Within cost n (f (delay * 2))) : Within cost n (double delay >>= f) := by
  rw [double]
  split
  · exact hf
  · have hpanic : Within cost (cost .panic + n) (.call .panic fun r => r.elim >>= f) :=
      within_call fun r => r.elim
    rwa [hp, Nat.zero_add] at hpanic

/-- The loop with `k` attempts left after this one. -/
theorem within_retryLoop (hp : cost .panic = 0) (hc : Within cost n call)
    (hk : policy.attempts ≤ i + 1 + k) :
    Within cost ((k + 1) * n + policy.pauses cost i k)
      (retryLoop policy call (i + 1) (policy.delay i)) := by
  induction k generalizing i with
  | zero =>
    have hrest : ∀ res, Within cost 0 (afterAttempt policy call (i + 1) (policy.delay i) res) := by
      intro res
      rw [afterAttempt_decided fun _ => hk]
      exact within_ret _
    rw [retryLoop_eq]
    apply (hc.bind hrest).mono
    omega
  | succ k ih =>
    have hrest : ∀ res, Within cost (policy.pauses cost i (k + 1) + (k + 1) * n)
        (afterAttempt policy call (i + 1) (policy.delay i) res) := by
      intro res
      rcases decided_or_transient policy (i + 1) res with ht | ⟨msg, rfl, hn⟩
      · rw [afterAttempt_decided ht]
        exact within_ret _
      · rw [afterAttempt_transient hn, RetryPolicy.pauses_succ, Nat.add_assoc]
        apply within_call
        intro _
        apply within_double hp
        rw [Nat.add_comm]
        exact ih (by omega)
    rw [retryLoop_eq]
    apply (hc.bind hrest).mono
    rw [Nat.succ_mul (k + 1)]
    omega

theorem within_retry (hp : cost .panic = 0) (hc : Within cost n call) :
    Within cost (policy.bill cost n) (retry policy call) := by
  have hloop : Within cost ((policy.attempts - 1 + 1) * n +
      policy.pauses cost 0 (policy.attempts - 1))
      (retryLoop policy call (0 + 1) (policy.delay 0)) :=
    within_retryLoop hp hc (by omega)
  have hcount : policy.attempts - 1 + 1 = max 1 policy.attempts := by omega
  rwa [hcount] at hloop

theorem total_tries (evs : Nat → List DriveEv) (he : ∀ i < m, total cost (evs i) = n) :
    total cost (policy.tries evs m) = m * n + policy.pauses cost 0 m := by
  induction m with
  | zero =>
    rw [Nat.zero_mul]
    rfl
  | succ m ih =>
    have hsleep : total cost [(⟨.sleep (policy.delay m), ()⟩ : DriveEv)] =
      cost (.sleep (policy.delay m)) := total_singleton _
    rw [RetryPolicy.tries, total_append, total_append, hsleep,
      ih fun i hi => he i (Nat.lt_succ_of_lt hi), he m (Nat.lt_succ_self m),
      RetryPolicy.pauses_concat, Nat.succ_mul, Nat.zero_add]
    omega

/-- A call that fails transiently in all attempts but the last one costs all that the loop can
cost. -/
theorem retry_spends (hfit : ¬ Overflows policy)
    (hx : Runs call h (.ret (.error (.transient msg)))) (hh : total cost h = n)
    (hy : Runs call h' (.ret res)) (hh' : total cost h' = n) :
    ∃ evs, Runs (retry policy call) evs (.ret (res.mapError CallError.intoError)) ∧
      total cost evs = policy.bill cost n := by
  obtain ⟨m, hm⟩ : ∃ m, m = policy.attempts - 1 := ⟨_, rfl⟩
  let outcomes (i : Nat) : Except CallError T := if i < m then .error (.transient msg) else res
  let evs (i : Nat) : List DriveEv := if i < m then h else h'
  have hlast : LastAttempt policy outcomes m := by
    refine ⟨by omega, fun i hi => ⟨msg, if_pos hi⟩, .inl (by omega)⟩
  have ha : Attempts AnyReply call outcomes (fun _ => ()) (fun _ => ()) evs := by
    refine ⟨fun i => ?_, fun _ _ => trivial⟩
    by_cases hi : i < m
    · simpa only [outcomes, evs, if_pos hi] using hx.exec_still fun _ _ => trivial
    · simpa only [outcomes, evs, if_neg hi] using hy.exec_still fun _ _ => trivial
  have hdelay : ∀ i < m, policy.delay i * 2 < durationLimit := by
    intro i hi
    exact Nat.not_le.1 fun hbig => hfit ⟨i, by omega, hbig⟩
  have hrun := (retriesAs_of_fits hlast hdelay _ _ _ _ _ _ ha).2.runs
  rw [show outcomes m = res from if_neg (Nat.lt_irrefl m)] at hrun
  refine ⟨_, hrun, ?_⟩
  rw [total_append, total_tries evs fun i hi => (congrArg (total cost) (if_pos hi)).trans hh,
    show evs m = h' from if_neg (Nat.lt_irrefl m), hh', RetryPolicy.bill, ← hm]
  have hcount : max 1 policy.attempts = m + 1 := by omega
  rw [hcount, Nat.succ_mul]
  omega

theorem worst_retry (hp : cost .panic = 0) (hfit : ¬ Overflows policy) (hc : Within cost n call)
    (hx : Runs call h (.ret (.error (.transient msg)))) (hh : total cost h = n) :
    Worst cost (policy.bill cost n) (retry policy call) := by
  obtain ⟨evs, hrun, ht⟩ := retry_spends hfit hx hh hx hh
  exact ⟨within_retry hp hc, evs, _, hrun, ht⟩

/-- A repeated request in its worst run fails in every attempt. -/
theorem worst_request {e : DriveCall} {f : e.Reply → Except CallError T} {r : e.Reply}
    (hp : cost .panic = 0) (hfit : ¬ Overflows policy) (hr : Transient (f r)) :
    Worst cost (policy.bill cost (cost e)) (retry policy (.call e fun r => .ret (f r))) := by
  obtain ⟨msg, hmsg⟩ := hr
  have hx : Runs (.call e fun r => .ret (f r)) [⟨e, r⟩] (.ret (f r)) := .cons r (.nil _)
  rw [hmsg] at hx
  exact worst_retry hp hfit (within_call (n := 0) fun r => within_ret (f r)) hx (total_singleton _)

end Retry

theorem Makes.within {p : Drv α} (hp : Makes P p) (hc : ∀ e, P e → cost e = 0) :
    Within cost 0 p := by
  induction p with
  | ret a => exact within_ret a
  | call e k ih =>
    have hcall : Within cost (cost e + 0) (.call e k) :=
      within_call fun r => ih r (hp.2 r () trivial)
    rwa [hc e hp.1] at hcall

namespace GoogleDriveStorage
variable {self : GoogleDriveStorage} {cost : DriveCall → Nat}

theorem worst_list (hp : cost .panic = 0) (hfit : ¬ Overflows self.retry) :
    Worst cost (self.retry.bill cost (cost (.filesList (folderQuery self.folderId)
      newestFirstOrder (min size (2 ^ 31 - 1)) listFields token))) (self.list size token) := by
  rw [list_eq]
  exact worst_request (r := none) hp hfit ⟨_, rfl⟩

theorem worst_get {id : String} (hp : cost .panic = 0) (hfit : ¬ Overflows self.retry) :
    Worst cost (self.retry.bill cost (cost (.filesGet id fileFields))) (self.get id) := by
  rw [get_eq]
  exact (worst_request (r := none) hp hfit ⟨_, rfl⟩).map _

theorem worst_delete {id : String} (hp : cost .panic = 0) (hfit : ¬ Overflows self.retry) :
    Worst cost (self.retry.bill cost (cost (.filesDelete id))) (self.delete id) := by
  rw [delete_eq]
  exact (worst_request (r := none) hp hfit ⟨_, rfl⟩).map _

/-- The listings of `latest` cost the same for every token. -/
def LatestCost (self : GoogleDriveStorage) (cost : DriveCall → Nat) (n : Nat) : Prop :=
  ∀ token, cost (.filesList (latestQuery self.folderId) newestFirstOrder latestPageSize listFields
    token) = n

theorem within_latestFrom (hp : cost .panic = 0) (hc : self.LatestCost cost c) :
    Within cost (n * self.retry.bill cost c) (self.latestFrom n token) := by
  induction n generalizing token with
  | zero => exact within_ret _
  | succ n ih =>
    have honce : Within cost (c + 0)
        (self.listOnce (latestQuery self.folderId) latestPageSize token) := by
      rw [listOnce_latest, ← hc token]
      exact within_call fun r => within_ret _
    rw [latestFrom_succ, Nat.succ_mul, Nat.add_comm]
    apply (within_retry hp honce).bind
    intro res
    cases res with
    | error e => exact within_ret _
    | ok page =>
      rw [afterPage]
      split
      · exact within_ret _
      · split
        · split
          · exact ih
          · exact within_ret _
        · exact within_ret _

theorem runs_listOnce (self : GoogleDriveStorage) (query : String) (token : Option String)
    (r : Timed FileList) : Runs (self.listOnce query latestPageSize token)
      [⟨.filesList query newestFirstOrder latestPageSize listFields token, r⟩]
      (.ret ((timed "Listing backups" self.requestTimeout r).map page)) := by
  rw [listOnce_latest]
  apply Runs.cons
  exact .nil _

/-- Every page is empty, has a successor and is only read in the last attempt. -/
theorem latestFrom_spends (hfit : ¬ Overflows self.retry) (hc : self.LatestCost cost c) :
    ∃ evs r, Runs (self.latestFrom n token) evs (.ret r) ∧
      total cost evs = n * self.retry.bill cost c := by
  induction n generalizing token with
  | zero => exact ⟨[], _, .nil _, (Nat.zero_mul _).symm⟩
  | succ n ih =>
    obtain ⟨evs', r, hrest, ht'⟩ : ∃ evs r, Runs (self.latestFrom n (some "next")) evs (.ret r) ∧
      total cost evs = n * self.retry.bill cost c := ih
    let empty : FileList := ⟨none, some "next"⟩
    have hx := self.runs_listOnce (latestQuery self.folderId) token none
    have hy := self.runs_listOnce (latestQuery self.folderId) token (some (.ok empty))
    have hone (r : Timed FileList) : total cost [(⟨.filesList (latestQuery self.folderId)
      newestFirstOrder latestPageSize listFields token, r⟩ : DriveEv)] = c :=
      (total_singleton _).trans (hc token)
    obtain ⟨evs, hretry, ht⟩ := retry_spends hfit hx (hone none) hy (hone _)
    refine ⟨evs ++ evs', r, (hretry.bind (self.afterPage n)).append ?_, ?_⟩
    · exact hrest
    · rw [total_append, ht, ht', Nat.succ_mul, Nat.add_comm]

theorem worst_latest (hp : cost .panic = 0) (hfit : ¬ Overflows self.retry)
    (hc : self.LatestCost cost c) :
    Worst cost (latestMaxPages * self.retry.bill cost c) self.latest :=
  ⟨within_latestFrom hp hc, latestFrom_spends hfit hc⟩

theorem worst_upload (ho : cost .openFile = 0) :
    Worst cost (cost (.filesCreate (uploadMetadata req self.folderId) fileFields content))
      (self.upload req content) := by
  rw [upload_eq]
  constructor
  · rw [← Nat.zero_add (cost _), ← ho]
    apply within_call
    intro r
    cases r with
    | error e => exact within_ret _
    | ok u =>
      apply within_call (n := 0)
      intro r
      cases timed "Uploading backup" self.uploadTimeout r with
      | error e => exact within_ret _
      | ok created => exact within_ret _
  · refine ⟨[⟨.openFile, .ok ()⟩, ⟨.filesCreate (uploadMetadata req self.folderId) fileFields
      content, none⟩], .error (CallError.transient ("Uploading backup" ++ " timed out after " ++
        debugDuration self.uploadTimeout)).intoError, ?_, ?_⟩
    · apply Runs.cons
      apply Runs.cons
      exact .nil _
    · rw [total, List.map_cons, List.sum_cons, ho, Nat.zero_add]
      exact total_singleton _

theorem worst_download (hp : cost .panic = 0) (hl : ∀ e : DriveCall, e.isLocal → cost e = 0)
    (hfit : ¬ Overflows self.retry) :
    Worst cost (self.retry.bill cost (cost (.filesMedia backup.id))) (self.download backup) := by
  have honce : Within cost (cost (.filesMedia backup.id) + 0) (self.downloadOnce backup) := by
    rw [downloadOnce_eq]
    apply within_call
    intro r
    cases timed "Downloading backup" self.requestTimeout r with
    | error e => exact within_ret _
    | ok body => exact local_save.within hl
  have hx : Runs (self.downloadOnce backup) [⟨.filesMedia backup.id, none⟩]
      (.ret (.error (.transient ("Downloading backup" ++ " timed out after " ++
        debugDuration self.requestTimeout)))) := by
    rw [downloadOnce_eq]
    apply Runs.cons
    exact .nil _
  exact (worst_retry hp hfit honce hx (total_singleton _)).map _

end GoogleDriveStorage

theorem bill_apiCalls (policy : RetryPolicy) :
    policy.bill DriveCall.apiCalls 1 = max 1 policy.attempts := by
  have hpauses : ∀ i k, policy.pauses DriveCall.apiCalls i k = 0 := by
    intro i k
    induction k generalizing i with
    | zero => rfl
    | succ k ih =>
      rw [RetryPolicy.pauses_succ, ih]
      rfl
  rw [RetryPolicy.bill, hpauses, Nat.mul_one]
  rfl

/-- The sleeps between the attempts of a call that fails transiently every time. -/
def RetryPolicy.backoff (policy : RetryPolicy) : Duration :=
  ((List.range (policy.attempts - 1)).map policy.delay).sum

theorem bill_slept (policy : RetryPolicy) :
    policy.bill DriveCall.slept 0 = policy.backoff := by
  rw [RetryPolicy.bill, Nat.mul_zero, Nat.zero_add, RetryPolicy.backoff, List.range_eq_range']
  rfl

theorem DriveCall.apiCalls_local (e : DriveCall) (he : e.isLocal) : e.apiCalls = 0 := by
  cases e with
  | openFile | createFile | writeFile | flushFile | sleep | panic => rfl
  | filesList | filesGet | filesMedia | filesDelete | filesCreate => cases he

theorem DriveCall.slept_local (e : DriveCall) (he : e.isLocal) : e.slept = 0 := by
  cases e with
  | sleep => cases he
  | _ => rfl

/-- The most that the sleeps between the attempts of each operation add up to. An upload is not
repeated and does not sleep. -/
theorem drive_backoff (self : GoogleDriveStorage) (hfit : ¬ Overflows self.retry) :
    (∀ size token, Worst DriveCall.slept self.retry.backoff (self.list size token)) ∧
    (∀ id, Worst DriveCall.slept self.retry.backoff (self.get id)) ∧
    (∀ id, Worst DriveCall.slept self.retry.backoff (self.delete id)) ∧
    (∀ backup, Worst DriveCall.slept self.retry.backoff (self.download backup)) ∧
    Worst DriveCall.slept (latestMaxPages * self.retry.backoff) self.latest ∧
    ∀ req content, Worst DriveCall.slept 0 (self.upload req content) := by
  rw [← bill_slept]
  refine ⟨fun size token => ?_, fun id => ?_, fun id => ?_, fun backup => ?_, ?_,
    fun req content => ?_⟩
  · exact GoogleDriveStorage.worst_list rfl hfit
  · exact GoogleDriveStorage.worst_get rfl hfit
  · exact GoogleDriveStorage.worst_delete rfl hfit
  · exact GoogleDriveStorage.worst_download rfl DriveCall.slept_local hfit
  · exact GoogleDriveStorage.worst_latest rfl hfit fun _ => rfl
  · exact GoogleDriveStorage.worst_upload rfl

theorem default_attempts_lt : 4 < 2 ^ 32 := by decide

theorem default_base_lt : 500000000 < durationLimit := by decide

theorem default_max_lt : 8000000000 < durationLimit := by decide

/-- `RetryPolicy::default` -/
def RetryPolicy.default : RetryPolicy :=
  ⟨4, 500000000, 8000000000, default_attempts_lt, default_base_lt, default_max_lt⟩

/-- The storage of a folder with `DriveOptions::default`. -/
def GoogleDriveStorage.default (folderId : String) (md5Hex : Bytes → String) :
    GoogleDriveStorage where
  folderId := folderId
  requestTimeout := 60000000000
  uploadTimeout := 1800000000000
  readIdleTimeout := 60000000000
  retry := .default
  md5Hex := md5Hex

theorem default_fits : ¬ Overflows RetryPolicy.default := by
  rw [overflows_iff (by decide) (by decide)]
  decide

/-- With the defaults a listing sleeps for three and a half seconds at most, and `latest` for
thirty-five. -/
theorem drive_backoff_default : ¬ Overflows RetryPolicy.default ∧
    Worst DriveCall.slept 3500000000 ((GoogleDriveStorage.default "f" fun _ => "").list 20 none) ∧
    Worst DriveCall.slept 35000000000 (GoogleDriveStorage.default "f" fun _ => "").latest := by
  obtain ⟨hlist, _, _, _, hlatest, _⟩ := drive_backoff (.default "f" fun _ => "") default_fits
  exact ⟨default_fits, hlist 20 none, hlatest⟩

/-- How often each operation can call the Drive API. -/
theorem drive_calls (self : GoogleDriveStorage) (hfit : ¬ Overflows self.retry) :
    (∀ size token, Worst DriveCall.apiCalls (max 1 self.retry.attempts) (self.list size token)) ∧
    (∀ id, Worst DriveCall.apiCalls (max 1 self.retry.attempts) (self.get id)) ∧
    (∀ id, Worst DriveCall.apiCalls (max 1 self.retry.attempts) (self.delete id)) ∧
    (∀ backup, Worst DriveCall.apiCalls (max 1 self.retry.attempts) (self.download backup)) ∧
    Worst DriveCall.apiCalls (latestMaxPages * max 1 self.retry.attempts) self.latest ∧
    ∀ req content, Worst DriveCall.apiCalls 1 (self.upload req content) := by
  rw [← bill_apiCalls]
  refine ⟨fun size token => ?_, fun id => ?_, fun id => ?_, fun backup => ?_, ?_,
    fun req content => ?_⟩
  · exact GoogleDriveStorage.worst_list rfl hfit
  · exact GoogleDriveStorage.worst_get rfl hfit
  · exact GoogleDriveStorage.worst_delete rfl hfit
  · exact GoogleDriveStorage.worst_download rfl DriveCall.apiCalls_local hfit
  · exact GoogleDriveStorage.worst_latest rfl hfit fun _ => rfl
  · exact GoogleDriveStorage.worst_upload rfl

theorem drive_calls_default : ¬ Overflows RetryPolicy.default ∧
    Worst DriveCall.apiCalls 40 (GoogleDriveStorage.default "f" fun _ => "").latest := by
  obtain ⟨_, _, _, _, hlatest, _⟩ := drive_calls (.default "f" fun _ => "") default_fits
  exact ⟨default_fits, hlatest⟩

end FastBackup

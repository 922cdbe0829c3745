import FastBackup.GDrive.Errors
import FastBackup.GDrive.Mapping
import FastBackup.Interaction.Safe

namespace FastBackup
open Interaction
set_option autoImplicit true

structure FileList where
  files : Option (List File)
  nextPageToken : Option String

inductive Frame where
  | data (bytes : Bytes)
  | trailers

/-- How a response body ends: completely, with a transport error, or without any more frames
for too long. -/
inductive Ending where
  | complete
  | interrupted (text : String)
  | idle

structure Body where
  frames : List Frame
  ending : Ending

/-- What the storage asks of Drive, of the local file of an upload or download, and of its
runtime. -/
inductive DriveCall where
  | filesList (q orderBy : String) (pageSize : Nat) (fields : String) (pageToken : Option String)
  | filesGet (id fields : String)
  | filesMedia (id : String)
  | filesDelete (id : String)
  | filesCreate (file : File) (fields : String) (content : Bytes)
  | openFile
  | createFile
  | writeFile (data : Bytes)
  | flushFile
  | sleep (delay : Duration)
  | panic

abbrev DriveCall.Reply : DriveCall → Type
  | .filesList .. => Timed FileList
  | .filesGet .. | .filesCreate .. => Timed File
  | .filesMedia _ => Timed Body
  | .filesDelete _ => Timed Unit
  | .openFile | .createFile | .writeFile _ | .flushFile => Except String Unit
  | .sleep _ => Unit
  | .panic => Empty

abbrev Drv := Prog DriveCall DriveCall.Reply

abbrev DriveEv := Event DriveCall DriveCall.Reply

abbrev askDrive (e : DriveCall) : Drv e.Reply := .perform e

/-- The first nanosecond count that is no `Duration`. -/
def durationLimit : Nat := 2 ^ 64 * 1000000000

structure RetryPolicy where
  attempts : Nat
  baseDelay : Duration
  maxDelay : Duration
  attempts_lt : attempts < 2 ^ 32
  base_lt : baseDelay < durationLimit
  max_lt : maxDelay < durationLimit

theorem durationLimit_pos : 0 < durationLimit := by decide

theorem two_lt_u32 : 2 < 2 ^ 32 := by decide

/-- `delay * 2`, which panics when the product is no `Duration`. -/
def double (delay : Duration) : Drv Duration :=
  if delay * 2 < durationLimit then return delay * 2 else .call .panic Empty.elim

/-- The loop of `retry`. -/
def retryLoop (policy : RetryPolicy) (call : Drv (Except CallError T)) (attempt : Nat)
    (delay : Duration) : Drv (Except Error T) := do
  match ← call with
  | .ok value => return .ok value
  | .error (.transient msg) =>
    if attempt ≥ policy.attempts then
      return .error (CallError.transient msg).intoError
    else
      askDrive (.sleep delay)
      let delay ← double delay
      retryLoop policy call (attempt + 1) (min delay policy.maxDelay)
  | .error err => return .error err.intoError
termination_by policy.attempts - attempt

/-- Retry transient failures with exponential backoff. -/
def retry (policy : RetryPolicy) (call : Drv (Except CallError T)) : Drv (Except Error T) :=
  retryLoop policy call 1 policy.baseDelay

def Transient (r : Except CallError T) : Prop := ∃ msg, r = .error (.transient msg)

section Spec
variable {σ : Type} {step : σ → (e : DriveCall) → e.Reply → σ → Prop} {policy : RetryPolicy}
  {call : Drv (Except CallError T)}

/-- The rest of the loop after an attempt. -/
def afterAttempt (policy : RetryPolicy) (call : Drv (Except CallError T)) (n : Nat)
    (delay : Duration) : Except CallError T → Drv (Except Error T)
  | .ok value => .ret (.ok value)
  | .error (.transient msg) =>
    if n ≥ policy.attempts then .ret (.error (CallError.transient msg).intoError)
    else .call (.sleep delay) fun _ =>
      double delay >>= fun d => retryLoop policy call (n + 1) (min d policy.maxDelay)
  | .error err => .ret (.error err.intoError)

theorem retryLoop_eq :
    retryLoop policy call n delay = call >>= afterAttempt policy call n delay := by
  rw [retryLoop]
  rfl

theorem afterAttempt_decided {res : Except CallError T} (ht : Transient res → policy.attempts ≤ n) :
    afterAttempt policy call n delay res = .ret (res.mapError CallError.intoError) := by
  cases res with
  | ok a => rfl
  | error err =>
    cases err with
    | transient msg => exact if_pos (ht ⟨msg, rfl⟩)
    | badRequest | permanent => rfl

theorem afterAttempt_transient (hn : n < policy.attempts) :
    afterAttempt policy call n delay (.error (.transient msg)) = .call (.sleep delay) fun _ =>
      double delay >>= fun d => retryLoop policy call (n + 1) (min d policy.maxDelay) :=
  if_neg (Nat.not_le.2 hn)

/-- An attempt decides the result, or the loop goes on. -/
theorem decided_or_transient (policy : RetryPolicy) (n : Nat) (res : Except CallError T) :
    (Transient res → policy.attempts ≤ n) ∨
      ∃ msg, res = .error (.transient msg) ∧ n < policy.attempts := by
  by_cases hn : policy.attempts ≤ n
  · exact .inl fun _ => hn
  · by_cases ht : Transient res
    · obtain ⟨msg, rfl⟩ := ht
      exact .inr ⟨msg, rfl, Nat.not_le.1 hn⟩
    · exact .inl fun h => absurd h ht

/-- Attempts that failed and were followed by a sleep, from attempt `n` with `delay` on. -/
inductive Failed (step : σ → (e : DriveCall) → e.Reply → σ → Prop) (policy : RetryPolicy)
    (call : Drv (Except CallError T)) :
    Nat → Duration → σ → List DriveEv → Nat → Duration → σ → Prop where
  | nil : Failed step policy call n delay s [] n delay s
  | cons (hx : Exec step s call evs (.ret (.error (.transient msg))) s₁) (hn : n < policy.attempts)
      (hs : step s₁ (.sleep delay) () s₂) (hd : delay * 2 < durationLimit)
      (hf : Failed step policy call (n + 1) (min (delay * 2) policy.maxDelay) s₂ evs' n' delay'
        s') :
      Failed step policy call n delay s (evs ++ ⟨.sleep delay, ()⟩ :: evs') n' delay' s'

theorem exec_double {f : Duration → Drv α} (hx : Exec step s (double delay >>= f) evs (.ret a) s') :
    delay * 2 < durationLimit ∧ Exec step s (f (delay * 2)) evs (.ret a) s' := by
  rw [double] at hx
  split at hx
  · rename_i hd
    exact ⟨hd, hx⟩
  · obtain ⟨r, _⟩ := exec_call_ret hx
    exact r.elim

/-- An attempt that failed transiently is followed by a sleep. -/
theorem exec_attempt (hx : Exec step s call evs (.ret (.error (.transient msg))) s₁)
    (hn : n < policy.attempts) (hs : step s₁ (.sleep delay) () s₂) :
    Exec step s (retryLoop policy call n delay) (evs ++ [⟨.sleep delay, ()⟩])
      (double delay >>= fun d => retryLoop policy call (n + 1) (min d policy.maxDelay)) s₂ := by
  rw [retryLoop_eq]
  apply (hx.bind _).append
  rw [Prog.ret_bind, afterAttempt_transient hn]
  exact .cons hs (.nil _ _)

/-- A run of the loop is a number of failed attempts and one that decides the result. -/
theorem exec_retryLoop (hx : Exec step s (retryLoop policy call n delay) evs (.ret r) s') :
    ∃ n' delay' s₁ evs₁ evs₂ res, Failed step policy call n delay s evs₁ n' delay' s₁ ∧
      Exec step s₁ call evs₂ (.ret res) s' ∧ evs = evs₁ ++ evs₂ ∧
      (Transient res → policy.attempts ≤ n') ∧ r = res.mapError CallError.intoError := by
  induction hk : policy.attempts - n using Nat.strong_induction_on generalizing n delay s evs with
  | _ k ih =>
  rw [retryLoop_eq] at hx
  obtain ⟨res, s₁, evs₁, evs₂, hcall, hrest, rfl⟩ := exec_bind_ret hx
  rcases decided_or_transient policy n res with ht | ⟨msg, rfl, hn⟩
  · rw [afterAttempt_decided ht] at hrest
    obtain ⟨rfl, he, rfl⟩ := exec_ret hrest
    cases he
    exact ⟨n, delay, s, [], evs₁, res, .nil, hcall, List.append_nil _, ht, rfl⟩
  · rw [afterAttempt_transient hn] at hrest
    obtain ⟨_, s₂, evs₃, hsleep, hloop, rfl⟩ := exec_call_ret hrest
    obtain ⟨hd, hloop⟩ := exec_double hloop
    obtain ⟨n', delay', s₃, evs₄, evs₅, res, hf, hres, rfl, ht, hr⟩ :=
      ih (policy.attempts - (n + 1)) (by omega) hloop rfl
    exact ⟨n', delay', s₃, _, evs₅, res, .cons hcall hn hsleep hd hf, hres, by simp, ht, hr⟩

/-- And every such sequence of attempts is a run of the loop. -/
theorem exec_of_failed (hf : Failed step policy call n delay s evs₁ n' delay' s₁)
    (hx : Exec step s₁ call evs₂ (.ret res) s') (ht : Transient res → policy.attempts ≤ n') :
    Exec step s (retryLoop policy call n delay) (evs₁ ++ evs₂)
      (.ret (res.mapError CallError.intoError)) s' := by
  induction hf with
  | @nil n delay s =>
    have hlast := hx.bind (afterAttempt policy call n delay)
    rwa [← retryLoop_eq, Prog.ret_bind, afterAttempt_decided ht] at hlast
  | cons hcall hn hs hd _ ih =>
    have hsleep := exec_attempt hcall hn hs
    rw [double, if_pos hd] at hsleep
    simpa using hsleep.append (ih hx ht)

/-- An outcome that is not transient ends the loop at once. -/
theorem runs_retryLoop_decided {e : DriveCall} {f : e.Reply → Except CallError T} {r : e.Reply}
    (hr : Runs (retryLoop policy (.call e fun r => .ret (f r)) n delay) (h ++ ⟨e, r⟩ :: h') p)
    (he : ∀ d, e ≠ .sleep d) (hd : ¬ Transient (f r)) :
    h' = [] ∧ p = .ret ((f r).mapError CallError.intoError) := by
  induction hk : policy.attempts - n using Nat.strong_induction_on generalizing n delay h with
  | _ k ih =>
  rw [retryLoop_eq] at hr
  cases h with
  | nil =>
    cases hr with
    | cons _ hr =>
      have hr : Runs (afterAttempt policy _ n delay (f r)) h' p := hr
      rw [afterAttempt_decided fun ht => absurd ht hd] at hr
      exact runs_ret hr
  | cons ev h =>
    cases hr with
    | cons r₀ hr =>
      have hr : Runs (afterAttempt policy _ n delay (f r₀)) (h ++ ⟨e, r⟩ :: h') p := hr
      rcases decided_or_transient policy n (f r₀) with ht | ⟨msg, hf, hn⟩
      · rw [afterAttempt_decided ht] at hr
        simpa using (runs_ret hr).1
      · rw [hf, afterAttempt_transient hn] at hr
        cases h with
        | nil =>
          cases hr
          exact absurd rfl (he _)
        | cons ev h =>
          cases hr with
          | cons _ hr =>
            rw [double] at hr
            split at hr
            · exact ih _ (by omega) hr rfl
            · cases h <;> cases hr with | cons r => exact r.elim

/-- A call of one request, repeated until it is decided. -/
theorem exec_retry_call {e : DriveCall} {f : e.Reply → Except CallError T}
    (hx : Exec step s (retry policy (.call e fun r => .ret (f r))) evs (.ret res) s') :
    ∃ s₁ r evs₁, step s₁ e r s' ∧ evs = evs₁ ++ [⟨e, r⟩] ∧
      res = (f r).mapError CallError.intoError := by
  obtain ⟨n, delay, s₁, evs₁, evs₂, res', _, hcall, rfl, _, rfl⟩ := exec_retryLoop hx
  obtain ⟨r, s₂, evs₃, hs, hret, rfl⟩ := exec_call_ret hcall
  obtain ⟨rfl, he, rfl⟩ := exec_ret hret
  cases he
  exact ⟨s₁, r, evs₁, hs, rfl, rfl⟩

/-- A request that succeeds at once is not repeated. -/
theorem exec_retry_ok {e : DriveCall} {f : e.Reply → Except CallError T} {r : e.Reply}
    (hs : step s e r s') (hf : f r = .ok a) :
    Exec step s (retry policy (.call e fun r => .ret (f r))) [⟨e, r⟩] (.ret (.ok a)) s' := by
  have hx : Exec step s (.call e fun r => .ret (f r)) [⟨e, r⟩] (.ret (f r)) s' :=
    .cons hs (.nil _ _)
  rw [hf] at hx
  exact exec_of_failed .nil hx (by rintro ⟨msg, he⟩; cases he)

end Spec

end FastBackup

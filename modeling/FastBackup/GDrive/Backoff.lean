import FastBackup.GDrive.Retrying

namespace FastBackup
open Interaction
set_option autoImplicit true

/-- How long a program has slept, sleep by sleep. -/
def sleeps (evs : List DriveEv) : List Duration :=
  evs.filterMap fun ev => match ev.call with
    | .sleep delay => some delay
    | _ => none

theorem sleeps_append (evs evs' : List DriveEv) :
    sleeps (evs ++ evs') = sleeps evs ++ sleeps evs' :=
  List.filterMap_append ..

/-- A call that neither sleeps nor panics itself. -/
structure Quiet (call : Drv α) : Prop where
  sleeps : Runs call evs q → FastBackup.sleeps evs = []
  panics : Runs call evs q → ∀ k, q ≠ .call .panic k

/-- The backoff follows its policy in every run, whatever is called and however the calls end: the
sleeps double from `base_delay` up to `max_delay`, and the doubling never panics. -/
def BacksOff (policy : RetryPolicy) : Prop :=
  ∀ (T : Type) (call : Drv (Except CallError T)) evs p, Quiet call →
    Runs (retry policy call) evs p →
    (∀ i d, (sleeps evs)[i]? = some d →
      d = min (policy.baseDelay * 2 ^ i) policy.maxDelay) ∧
    (∀ d ∈ sleeps evs, d ≤ policy.maxDelay) ∧ ∀ k, p ≠ .call .panic k

/-- A delay that the loop doubles is no `Duration` any more. -/
def Overflows (policy : RetryPolicy) : Prop :=
  ∃ i, i + 1 < policy.attempts ∧ durationLimit ≤ policy.delay i * 2

/-- A run of the loop from attempt `i + 1` on has slept as the policy says, and panics only after
a doubling that overflows. -/
structure Backoff (policy : RetryPolicy) (i : Nat) (evs : List DriveEv) (p : Drv α) : Prop where
  sleeps : ∀ j d, (sleeps evs)[j]? = some d →
    i + j + 1 < policy.attempts ∧ d = policy.delay (i + j)
  panics : ∀ k, p = .call .panic k → Overflows policy

theorem Backoff.idle {p : Drv α} (hs : FastBackup.sleeps evs = []) (hp : ∀ k, p ≠ .call .panic k) :
    Backoff policy i evs p := by
  refine ⟨?_, fun k he => absurd he (hp k)⟩
  intro j d hd
  rw [hs] at hd
  cases hd

/-- One more sleep in front. -/
theorem Backoff.sleep {p : Drv α} (hi : i + 1 < policy.attempts)
    (hb : Backoff policy (i + 1) evs p) :
    Backoff policy i (⟨.sleep (policy.delay i), ()⟩ :: evs) p := by
  refine ⟨?_, hb.panics⟩
  intro j d hd
  have hsleeps : FastBackup.sleeps (⟨.sleep (policy.delay i), ()⟩ :: evs) =
    policy.delay i :: FastBackup.sleeps evs := rfl
  rw [hsleeps] at hd
  cases j with
  | zero =>
    cases hd
    exact ⟨hi, rfl⟩
  | succ j =>
    have hlater := hb.sleeps j d hd
    rwa [Nat.add_right_comm i 1 j] at hlater

theorem runs_retryLoop_sleeps {call : Drv (Except CallError T)} (hq : Quiet call)
    (hr : Runs (retryLoop policy call (i + 1) (policy.delay i)) evs p) :
    Backoff policy i evs p := by
  induction hk : policy.attempts - i using Nat.strong_induction_on generalizing i evs with
  | _ k ih =>
  rw [retryLoop_eq] at hr
  rcases runs_bind hr with ⟨e, k, hc, rfl⟩ | ⟨res, evs₁, evs₂, hc, hrest, rfl⟩
  · apply Backoff.idle (hq.sleeps hc)
    intro k' he
    cases he
    exact hq.panics hc k rfl
  have hsleeps : sleeps (evs₁ ++ evs₂) = sleeps evs₂ := by
    rw [sleeps_append, hq.sleeps hc, List.nil_append]
  suffices hb : Backoff policy i evs₂ p by
    refine ⟨?_, hb.panics⟩
    rw [hsleeps]
    exact hb.sleeps
  rcases decided_or_transient policy (i + 1) res with ht | ⟨msg, rfl, hn⟩
  · rw [afterAttempt_decided ht] at hrest
    obtain ⟨rfl, rfl⟩ := runs_ret hrest
    apply Backoff.idle rfl
    intro k he
    cases he
  rw [afterAttempt_transient hn] at hrest
  cases hrest with
  | nil =>
    apply Backoff.idle rfl
    intro k he
    cases he
  | cons _ hrest =>
    apply Backoff.sleep hn
    by_cases hfit : policy.delay i * 2 < durationLimit
    · rw [double, if_pos hfit] at hrest
      exact ih _ (by omega) (i := i + 1) hrest rfl
    · rw [double, if_neg hfit] at hrest
      cases hrest with
      | nil =>
        refine ⟨?_, fun _ _ => ⟨i, hn, Nat.not_lt.1 hfit⟩⟩
        intro j d hd
        cases hd
      | cons r => exact r.elim

/-- The delays in closed form, if the first one is within the maximum. -/
theorem RetryPolicy.delay_eq {policy : RetryPolicy} (hb : policy.baseDelay ≤ policy.maxDelay)
    (i : Nat) : policy.delay i = min (policy.baseDelay * 2 ^ i) policy.maxDelay := by
  induction i with
  | zero =>
    rw [Nat.pow_zero, Nat.mul_one, Nat.min_eq_left hb]
    rfl
  | succ i ih =>
    have hcap (x cap : Nat) : min (min x cap * 2) cap = min (x * 2) cap := by omega
    rw [RetryPolicy.delay, ih, Nat.pow_succ, ← Nat.mul_assoc]
    exact hcap ..

/-- The last delay that is doubled is the longest. -/
theorem overflows_iff {policy : RetryPolicy} (hb : policy.baseDelay ≤ policy.maxDelay)
    (ha : 1 < policy.attempts) : Overflows policy ↔
      durationLimit ≤ min (policy.baseDelay * 2 ^ (policy.attempts - 2)) policy.maxDelay * 2 := by
  constructor
  · rintro ⟨i, hi, hlimit⟩
    rw [RetryPolicy.delay_eq hb] at hlimit
    have hpow : 2 ^ i ≤ 2 ^ (policy.attempts - 2) := Nat.pow_le_pow_right (by decide) (by omega)
    have hmul := Nat.mul_le_mul_left policy.baseDelay hpow
    omega
  · intro hlimit
    refine ⟨policy.attempts - 2, by omega, ?_⟩
    rwa [RetryPolicy.delay_eq hb]

/-- A call of one request is quiet. -/
theorem quiet_numberedCall (outcomes : Nat → Except CallError T) :
    Quiet (numberedCall outcomes) := by
  constructor
  · intro evs q hr
    cases hr with
    | nil => rfl
    | cons r hr =>
      obtain ⟨rfl, _⟩ := runs_ret hr
      rfl
  · intro evs q hr k he
    subst he
    cases hr with
    | cons r hr =>
      obtain ⟨_, he⟩ := runs_ret hr
      cases he

theorem lastAttempt_alwaysTransient (policy : RetryPolicy) :
    LastAttempt policy alwaysTransient (max 1 policy.attempts - 1) := by
  refine ⟨by omega, fun _ _ => ⟨"x", rfl⟩, .inl (by omega)⟩

/-- After `i` transient failures and sleeps, the next failure is followed by a sleep too. -/
theorem runs_sleep (policy : RetryPolicy) (hi : i + 1 < policy.attempts)
    (hfit : ∀ j < i, policy.delay j * 2 < durationLimit) :
    Runs (retry policy (numberedCall alwaysTransient))
      (policy.tries numberedEvs i ++ (numberedEvs i ++ [⟨.sleep (policy.delay i), ()⟩]))
      (double (policy.delay i) >>= fun d =>
        retryLoop policy (numberedCall alwaysTransient) (i + 2) (min d policy.maxDelay)) := by
  have ha := numbered_attempts alwaysTransient
  have hx := ha.exec_tries (lastAttempt_alwaysTransient policy) (by omega) hfit
  exact (hx.append (exec_attempt (ha.run i) hi (ha.sleep i _))).runs

/-- The backoff follows its policy if and only if there is at most one attempt, or `base_delay` is
within `max_delay` and the last delay is still a `Duration` when doubled. -/
theorem backoff_iff (policy : RetryPolicy) : BacksOff policy ↔ policy.attempts ≤ 1 ∨
    policy.baseDelay ≤ policy.maxDelay ∧
      min (policy.baseDelay * 2 ^ (policy.attempts - 2)) policy.maxDelay * 2 < durationLimit := by
  constructor
  · intro hb
    rw [or_iff_not_imp_left, Nat.not_le]
    intro ha
    have hquiet := quiet_numberedCall alwaysTransient
    have hbase : policy.baseDelay ≤ policy.maxDelay := by
      have hr := runs_sleep policy (i := 0) ha (fun j hj => absurd hj (Nat.not_lt_zero j))
      exact (hb _ _ _ _ hquiet hr).2.1 policy.baseDelay (List.mem_singleton_self _)
    refine ⟨hbase, Nat.not_le.1 fun hlimit => ?_⟩
    have hfit : ∀ i, i + 1 < policy.attempts → policy.delay i * 2 < durationLimit := by
      intro i
      induction i using Nat.strong_induction_on with
      | _ i ih =>
      intro hi
      by_contra hbig
      have hr := runs_sleep policy hi fun j hj => ih j hj (by omega)
      rw [double, if_neg hbig] at hr
      exact (hb _ _ _ _ hquiet hr).2.2 _ rfl
    obtain ⟨i, hi, hbig⟩ := (overflows_iff hbase ha).2 hlimit
    exact absurd (hfit i hi) (Nat.not_lt.2 hbig)
  · intro hcond T call evs p hq hr
    obtain ⟨hsleeps, hpanic⟩ := runs_retryLoop_sleeps (i := 0) hq hr
    have hlasts : ∀ i d, (sleeps evs)[i]? = some d →
        d = min (policy.baseDelay * 2 ^ i) policy.maxDelay := by
      intro i d hd
      obtain ⟨hi, rfl⟩ := hsleeps i d hd
      rw [Nat.zero_add] at hi ⊢
      rcases hcond with ha | ⟨hbase, _⟩
      · omega
      · exact RetryPolicy.delay_eq hbase i
    refine ⟨hlasts, ?_, ?_⟩
    · intro d hd
      obtain ⟨i, hi⟩ := List.getElem?_of_mem hd
      rw [hlasts i d hi]
      exact Nat.min_le_right ..
    · rintro k rfl
      have hover := hpanic k rfl
      have ha : 1 < policy.attempts := by
        obtain ⟨i, hi, _⟩ := hover
        omega
      rcases hcond with hone | ⟨hbase, hfit⟩
      · omega
      · exact absurd ((overflows_iff hbase ha).1 hover) (Nat.not_le.2 hfit)

/-- Two attempts, ten seconds apart, and a maximum of eight seconds. -/
def slowPolicy : RetryPolicy :=
  ⟨2, 10000000000, 8000000000, two_lt_u32, by decide, by decide⟩

/-- The first sleep is longer than the maximum. -/
theorem backoff_uncapped : ∃ q, Runs (retry slowPolicy (numberedCall alwaysTransient))
    (numberedEvs 0 ++ [⟨.sleep 10000000000, ()⟩]) q ∧ slowPolicy.maxDelay < 10000000000 := by
  have hr := runs_sleep slowPolicy (i := 0) (by decide) (fun j hj => absurd hj (Nat.not_lt_zero j))
  exact ⟨_, hr, by decide⟩

end FastBackup

import FastBackup.GDrive.Drive
import FastBackup.GDrive.Storage

namespace FastBackup
open Interaction Paging
set_option autoImplicit true

/-- The request was answered with success; local operations are no requests. -/
def Succeeded (ev : DriveEv) : Prop :=
  match ev with
  | ⟨.filesList .., r⟩ => ∃ a, r = some (.ok a)
  | ⟨.filesGet .., r⟩ | ⟨.filesCreate .., r⟩ => ∃ a, r = some (.ok a)
  | ⟨.filesMedia _, r⟩ => ∃ a, r = some (.ok a)
  | ⟨.filesDelete _, r⟩ => ∃ a, r = some (.ok a)
  | _ => True

/-- Each request was answered within the retry limit: the last one was answered. -/
def WithinRetries (evs : List DriveEv) : Prop := ∀ h ev, evs = h ++ [ev] → Succeeded ev

theorem WithinRetries.tail (ha : WithinRetries (evs ++ evs')) : WithinRetries evs' := by
  rintro h ev rfl
  exact ha (evs ++ h) ev (List.append_assoc ..).symm

theorem withinRetries_nil : WithinRetries [] := by
  intro h ev he
  simp at he

theorem WithinRetries.cons (hev : Succeeded ev) (ha : WithinRetries evs) :
    WithinRetries (ev :: evs) := by
  intro h ev' he
  cases h with
  | nil =>
    cases he
    exact hev
  | cons _ h =>
    cases he
    exact ha h ev' rfl

/-- The program makes only calls in `P`. -/
def Makes (P : DriveCall → Prop) (p : Drv α) : Prop :=
  Meets (σ := Unit) (fun _ _ _ _ => True) (fun _ e => P e) (fun _ _ => True) () p

variable {P : DriveCall → Prop}

theorem Makes.call {k : e.Reply → Drv α} (he : P e) (hk : ∀ r, Makes P (k r)) :
    Makes P (.call e k) :=
  ⟨he, fun r _ _ => hk r⟩

/-- A program of one call. -/
theorem Makes.once {f : e.Reply → α} (he : P e) : Makes P (.call e fun r => .ret (f r)) :=
  Makes.call he fun _ => trivial

theorem Makes.bind {p : Drv α} {f : α → Drv β} (hp : Makes P p) (hf : ∀ a, Makes P (f a)) :
    Makes P (p >>= f) := by
  apply Meets.bind
  exact hp.post_mono fun _ a _ => hf a

theorem Makes.retryLoop {call : Drv (Except CallError T)} (hc : Makes P call)
    (hs : ∀ delay, P (.sleep delay)) (hp : P .panic) : Makes P (retryLoop policy call n delay) := by
  induction hk : policy.attempts - n using Nat.strong_induction_on generalizing n delay with
  | _ k ih =>
  rw [retryLoop_eq]
  apply hc.bind
  intro res
  rcases decided_or_transient policy n res with ht | ⟨msg, rfl, hn⟩
  · rw [afterAttempt_decided ht]
    trivial
  · rw [afterAttempt_transient hn]
    apply Makes.call (hs delay)
    intro _
    rw [double]
    split
    · exact ih _ (by omega) rfl
    · exact Makes.call hp fun r => r.elim

theorem Makes.events {p q : Drv α} {step : σ → (e : DriveCall) → e.Reply → σ → Prop}
    (hp : Makes P p) (hx : Exec step s p evs q s') : ∀ ev ∈ evs, P ev.call := by
  induction hx with
  | nil => exact fun _ hm => (List.not_mem_nil hm).elim
  | cons _ _ ih =>
    obtain ⟨he, hk⟩ := hp
    intro ev hm
    rcases List.mem_cons.1 hm with rfl | hm
    · exact he
    · exact ih (hk _ () trivial) ev hm

/-- What the calls of a program keep, its executions keep. -/
theorem Makes.invariant {p q : Drv α} {step : σ → (e : DriveCall) → e.Reply → σ → Prop}
    (I : σ → Prop) (hp : Makes P p) (hI : ∀ s e r s', P e → I s → step s e r s' → I s')
    (hx : Exec step s p evs q s') (hi : I s) : I s' := by
  induction hx with
  | nil => exact hi
  | cons hs _ ih =>
    obtain ⟨he, hk⟩ := hp
    exact ih (hk _ () trivial) (hI _ _ _ _ he hi hs)

/-- So each of their steps starts where the invariant holds. -/
theorem Makes.strengthen {p q : Drv α} {step : σ → (e : DriveCall) → e.Reply → σ → Prop}
    (I : σ → Prop) (hp : Makes P p) (hI : ∀ s e r s', P e → I s → step s e r s' → I s')
    (hx : Exec step s p evs q s') (hi : I s) :
    Exec (fun s e r s' => I s ∧ step s e r s') s p evs q s' := by
  induction hx with
  | nil => exact .nil _ _
  | cons hs _ ih =>
    obtain ⟨he, hk⟩ := hp
    exact .cons ⟨hi, hs⟩ (ih (hk _ () trivial) (hI _ _ _ _ he hi hs))

/-- The program makes only calls that leave Drive as it is. -/
abbrev Reading (p : Drv α) : Prop := Makes (fun e => e.reads = true) p

theorem Reading.call {k : e.Reply → Drv α} (he : e.reads = true) (hk : ∀ r, Reading (k r)) :
    Reading (.call e k) :=
  Makes.call he hk

theorem Reading.retry {call : Drv (Except CallError T)} (hc : Reading call) :
    Reading (retry policy call) :=
  hc.retryLoop (fun _ => rfl) rfl

/-- The calls that work on the local file of a download. -/
def DriveCall.isLocal : DriveCall → Bool
  | .createFile | .writeFile _ | .flushFile => true
  | _ => false

/-- The program works on the local file only. -/
abbrev Local (p : Drv α) : Prop := Makes (fun e => e.isLocal = true) p

theorem Local.call {k : e.Reply → Drv α} (he : e.isLocal = true) (hk : ∀ r, Local (k r)) :
    Local (.call e k) :=
  Makes.call he hk

theorem Local.reading {p : Drv α} (hp : Local p) : Reading p := by
  refine Meets.mono hp ?_ fun _ _ h => h
  intro _ e he
  cases e with
  | filesDelete | filesCreate => cases he
  | _ => rfl

/-- Drive with the files `d`. -/
def Steady (D : DrivePager) (d : Drive) (w : DriveWorld) (e : DriveCall) (r : e.Reply)
    (w' : DriveWorld) : Prop :=
  w.drive = d ∧ DriveStep D w e r w'

theorem Reading.steady {p q : Drv α} (hp : Reading p) (hx : Exec (DriveStep D) w p evs q w') :
    w'.drive = w.drive ∧ Exec (Steady D w.drive) w p evs q w' := by
  have hI : ∀ w₁ e r w₂, e.reads = true → w₁.drive = w.drive → DriveStep D w₁ e r w₂ →
      w₂.drive = w.drive :=
    fun _ _ _ _ he hd hs => (hs.drive_eq he).trans hd
  let I (w₁ : DriveWorld) := w₁.drive = w.drive
  exact ⟨hp.invariant I hI hx rfl, hp.strengthen I hI hx rfl⟩

/-- Every successful listing of `query` is a page of `l`. -/
def Answers (D : DrivePager) (query : String) (l : List Stored)
    (step : σ → (e : DriveCall) → e.Reply → σ → Prop) : Prop :=
  ∀ s size fields token list s', step s (.filesList query newestFirstOrder size fields token)
    (some (.ok list)) s' → ∃ next i, D.start token = some i ∧ D.Next l size token next ∧
      list = answerList (fieldNames fields) (D.entries l size token) next

theorem DriveStep.answers (hq : w.drive.result query = some l)
    (hs : DriveStep D w (.filesList query newestFirstOrder size fields token) (some (.ok list))
      w') : ∃ next i, D.start token = some i ∧ D.Next l size token next ∧
      list = answerList (fieldNames fields) (D.entries l size token) next := by
  cases hs with
  | listOk hq' hs hn =>
    rw [hq, Option.some.injEq] at hq'
    subst hq'
    exact ⟨_, _, hs, hn, rfl⟩
  | listFail hr => exact absurd rfl (hr list)

theorem steady_answers (hq : d.result query = some l) : Answers D query l (Steady D d) := by
  rintro w size fields token list w' ⟨rfl, hs⟩
  exact hs.answers hq

namespace GoogleDriveStorage
variable {self : GoogleDriveStorage}

theorem page_answerList (entries : List Stored) (next : Option String) :
    page (answerList (fieldNames listFields) entries next) =
      ⟨entries.filterMap Stored.backup, next⟩ := by
  have hf : "files" ∈ fieldNames listFields := by
    rw [fieldNames_listFields]
    simp
  have ht : "nextPageToken" ∈ fieldNames listFields := by
    rw [fieldNames_listFields]
    simp
  simp only [page, answerList, if_pos hf, if_pos ht, Option.getD_some, List.filterMap_map,
    Page.mk.injEq, and_true]
  apply List.filterMap_congr
  intro f _
  rw [Function.comp, Stored.answer_listFields, Stored.backup]

theorem reading_list : Reading (self.list size token) :=
  Reading.retry (Makes.once rfl)

theorem reading_latestFrom : Reading (self.latestFrom n token) := by
  induction n generalizing token with
  | zero => trivial
  | succ n ih =>
    apply Makes.bind
    · exact Reading.retry (Makes.once rfl)
    intro r
    cases r with
    | error e => trivial
    | ok page =>
      obtain ⟨items, next⟩ := page
      cases items with
      | cons => trivial
      | nil =>
        cases next with
        | none => trivial
        | some next =>
          simp only
          split
          · exact ih
          · trivial

theorem reading_get {id : String} : Reading (self.get id) := by
  apply Makes.bind
  · exact Reading.retry (Makes.once rfl)
  intro r
  cases r with
  | error e => trivial
  | ok file =>
    simp only
    split <;> trivial

theorem local_receive : Local (self.receive ending frames hashed) := by
  induction frames generalizing hashed with
  | nil => cases ending <;> trivial
  | cons frame frames ih =>
    cases frame with
    | trailers => exact ih
    | data bytes =>
      apply Local.call rfl
      intro r
      cases r with
      | error e => trivial
      | ok u => exact ih

theorem local_save : Local (self.save backup body) := by
  apply Local.call rfl
  intro r
  cases r with
  | error e => trivial
  | ok u =>
    apply local_receive.bind
    intro r
    cases r with
    | error e => trivial
    | ok hashed =>
      apply Local.call rfl
      intro r
      cases r <;> trivial

theorem downloadOnce_eq : self.downloadOnce backup = .call (.filesMedia backup.id) fun r =>
    match timed "Downloading backup" self.requestTimeout r with
    | .error e => .ret (.error e)
    | .ok body => self.save backup body := rfl

theorem reading_downloadOnce : Reading (self.downloadOnce backup) := by
  rw [downloadOnce_eq]
  apply Reading.call rfl
  intro r
  cases timed "Downloading backup" self.requestTimeout r with
  | error e => trivial
  | ok body => exact local_save.reading

theorem reading_download : Reading (self.download backup) := by
  apply Makes.bind
  · exact Reading.retry reading_downloadOnce
  · exact fun _ => trivial

end GoogleDriveStorage

end FastBackup

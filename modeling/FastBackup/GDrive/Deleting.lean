import FastBackup.GDrive.Listing

namespace FastBackup
open Interaction
set_option autoImplicit true

/-- Drive as a set of files that delete requests work on. `S` are the error responses, with status
and JSON body, that can come. -/
inductive DeleteStep (S : Nat → Option Json → Prop) :
    Drive → (e : DriveCall) → e.Reply → Drive → Prop where
  | request {id : String} {r : Timed Unit} (hd : Deletes S d id r d') :
      DeleteStep S d (.filesDelete id) r d'
  | sleep : DeleteStep S d (.sleep delay) () d

variable {S : Nat → Option Json → Prop} {d d' : Drive}

theorem deleteStep_deleting (S : Nat → Option Json → Prop) (id : String) :
    Deleting (fun d => d) S id (DeleteStep S) where
  request hs := by
    cases hs with
    | request hd => exact hd
  sleep hs := by
    cases hs
    rfl

/-- A delete of `id` is safe under lost replies, in every run and under every policy. -/
structure SafeDelete (S : Nat → Option Json → Prop) (id : String) : Prop where
  /-- If it returns `Ok`, the file is gone. -/
  gone : ∀ (self : GoogleDriveStorage) d evs d',
    Exec (DeleteStep S) d (self.delete id) evs (.ret (.ok ())) d' → id ∉ d'.files.map Stored.id
  /-- No other file is affected. -/
  others : ∀ (self : GoogleDriveStorage) d evs p d',
    Exec (DeleteStep S) d (self.delete id) evs p d' →
      ∀ f : Stored, f.id ≠ id → (f ∈ d'.files ↔ f ∈ d.files)
  /-- If an earlier request of it removed the file, so that the reply was lost, and a request is
  then answered with a 404, it returns `Ok`. -/
  settled : ∀ (self : GoogleDriveStorage) d evs k d' body,
    Exec (DeleteStep S) d (self.delete id) evs (.call (.filesDelete id) k) d' →
    id ∈ d.files.map Stored.id → id ∉ d'.files.map Stored.id → S 404 body →
    k (some (.error (reported 404 body))) = .ret (.ok ())

namespace GoogleDriveStorage
variable {self : GoogleDriveStorage}

/-- One attempt of a delete. -/
abbrev deleteOnce (self : GoogleDriveStorage) (id : String) : Drv (Except CallError Unit) :=
  .call (.filesDelete id) fun r => .ret (timed "Deleting backup" self.requestTimeout r)

section Runs
variable {id : String}

/-- What is taken for a 404 ends a delete, successfully. -/
theorem runs_delete_missing {e : DriveError} {p : Drv (Except Error Unit)}
    (hr : Runs (self.delete id) (h ++ [⟨.filesDelete id, some (.error e)⟩]) p)
    (hm : e.isMissing) : p = .ret (.ok ()) := by
  rw [delete_eq] at hr
  obtain ⟨q, hq, rfl⟩ := runs_map hr
  obtain ⟨msg, hc⟩ := (classify_missing "Deleting backup" e).2 hm
  have hdecided : ¬ Transient
      (timed "Deleting backup" self.requestTimeout (some (.error e : Except DriveError Unit))) := by
    rw [timed, hc]
    rintro ⟨_, he⟩
    cases he
  obtain ⟨_, rfl⟩ := runs_retryLoop_decided hq (fun _ he => by cases he) hdecided
  rw [timed, hc]
  rfl

/-- A delete with a single attempt. -/
theorem delete_once {step : σ → (e : DriveCall) → e.Reply → σ → Prop} {r : Timed Unit}
    (hs : step s (.filesDelete id) r s') : Exec step s (someStorage.delete id)
      [⟨.filesDelete id, r⟩] (.ret (deleted
        ((timed "Deleting backup" someStorage.requestTimeout r).mapError CallError.intoError)))
      s' := by
  have hcall : Exec step s (someStorage.deleteOnce id) [⟨.filesDelete id, r⟩] _ s' :=
    .cons hs (.nil _ _)
  have hretry : Exec step s (FastBackup.retry someStorage.retry (someStorage.deleteOnce id))
      [⟨.filesDelete id, r⟩] _ s' :=
    exec_of_failed .nil hcall fun _ => Nat.le_refl 1
  rw [delete_eq]
  exact hretry.bind fun r => .ret (deleted r)

/-- After a request of which nothing was heard, a delete with two attempts makes the last one. -/
theorem delete_twice {step : σ → (e : DriveCall) → e.Reply → σ → Prop}
    (hs : step s (.filesDelete id) none s₁)
    (hsleep : step s₁ (.sleep twiceStorage.retry.baseDelay) () s₂) :
    Exec step s (twiceStorage.delete id)
      [⟨.filesDelete id, none⟩, ⟨.sleep twiceStorage.retry.baseDelay, ()⟩]
      (.call (.filesDelete id) fun r => .ret (deleted
        ((timed "Deleting backup" twiceStorage.requestTimeout r).mapError CallError.intoError)))
      s₂ := by
  have hcall : Exec step s (twiceStorage.deleteOnce id) [⟨.filesDelete id, none⟩] _ s₁ :=
    .cons hs (.nil _ _)
  have hn : 1 < twiceStorage.retry.attempts := by decide
  have hloop : Exec step s (FastBackup.retry twiceStorage.retry (twiceStorage.deleteOnce id)) _ _
      s₂ := exec_attempt hcall hn hsleep
  rw [double, if_pos (by decide), Prog.pure_eq, Prog.ret_bind] at hloop
  have hlast : ∀ delay, retryLoop twiceStorage.retry (twiceStorage.deleteOnce id) 2 delay =
      .call (.filesDelete id) fun r => .ret
        ((timed "Deleting backup" twiceStorage.requestTimeout r).mapError CallError.intoError) := by
    intro delay
    rw [retryLoop_eq, Prog.call_bind]
    congr 1
    funext r
    exact afterAttempt_decided fun _ => Nat.le_refl 2
  rw [hlast] at hloop
  rw [delete_eq]
  exact hloop.bind fun r => .ret (deleted r)

end Runs

end GoogleDriveStorage

open GoogleDriveStorage

/-- A Drive with one file. -/
def oneFile (f : Stored) (ha : Addresses f.id f.id) : Drive :=
  ⟨[f], by simp, by simp, by simpa using ha⟩

theorem mem_oneFile_erase {id : String} {f : Stored} (ha : Addresses f.id f.id)
    (hr : Removes id f) : f ∉ ((oneFile f ha).erase id).files :=
  fun hm => (Drive.mem_erase.1 hm).2 hr

/-- A success of a request that removes the one file. -/
theorem deletes_oneFile {id : String} {f : Stored} (ha : Addresses f.id f.id)
    (hr : Removes id f) :
    Deletes S (oneFile f ha) id (some (.ok ())) ((oneFile f ha).erase id) := by
  apply Deletes.removed
  rintro ⟨i, hi⟩
  rcases hr with hr | ⟨ht, _⟩
  · exact ⟨f, List.mem_singleton_self f, hr⟩
  · exact absurd ht hi.not_trash

namespace SafeDelete
variable {id : String}

/-- A safe delete removes no file but its own. -/
theorem removes (hsafe : SafeDelete S id) {f : Stored} (ha : Addresses f.id f.id)
    (hr : Removes id f) : f.id = id := by
  by_contra hne
  have hx := delete_once (DeleteStep.request (deletes_oneFile (S := S) ha hr))
  have hkept := (hsafe.others _ _ _ _ _ hx f hne).2 (List.mem_singleton_self f)
  exact mem_oneFile_erase ha hr hkept

theorem not_trash (hsafe : SafeDelete S id) : ¬ Leads id "trash" := by
  intro ht
  let f : Stored := { someFile "a" "" "" with trashed := true }
  have hid : "a" = id := hsafe.removes (f := f) addresses_a (.inr ⟨ht, rfl⟩)
  subst hid
  exact addresses_a.not_trash ht

/-- Where a delete is safe, what is taken for a 404 is one: the file is still there otherwise. -/
theorem status_of_missing (hsafe : SafeDelete S id) (ha : Addresses id id) (hs : S status body)
    (hm : (reported status body).isMissing) : status = 404 := by
  by_contra hne
  have hrefused : Deletes S (oneFile (someFile id "" "") ha) id _ _ := .refused hs hne
  have hx := delete_once (DeleteStep.request hrefused)
  rw [deleted_ok.2 (.inr ⟨_, rfl, hm⟩)] at hx
  exact hsafe.gone _ _ _ _ hx (List.mem_singleton_self id)

/-- And a 404 is taken for one: the request before it, whose reply was lost, may have removed the
file. -/
theorem missing_of_status (hsafe : SafeDelete S id) (ha : Addresses id id) (hs : S 404 body) :
    (reported 404 body).isMissing := by
  have hlost : Deletes S (oneFile (someFile id "" "") ha) id none _ := .lostRemoved (.inl rfl)
  have hx := delete_twice (DeleteStep.request hlost) .sleep
  have hok := hsafe.settled _ _ _ _ _ body hx (List.mem_singleton_self id)
    (Drive.absent_erase ha _) hs
  rcases deleted_ok.1 (Prog.ret.inj hok) with he | ⟨e, he, hm⟩
  · cases he
  · cases he
    exact hm

end SafeDelete

/-- A delete is safe under lost replies if and only if the URL made from the id leads to no other
file and not to the trash, and, where it leads to a file, each error response is taken for a 404
exactly if it is one. -/
theorem delete_safe_iff (S : Nat → Option Json → Prop) (id : String) : SafeDelete S id ↔
    (∀ i, Addresses id i → Addresses i i → i = id) ∧ ¬ Leads id "trash" ∧
      (Addresses id id → ∀ status body, S status body → HonestStatus status body) := by
  constructor
  · intro hsafe
    refine ⟨?_, hsafe.not_trash, ?_⟩
    · intro i hi hii
      exact hsafe.removes (f := someFile i "" "") hii (.inl hi)
    · intro ha status body hs
      constructor
      · exact hsafe.status_of_missing ha hs
      · rintro rfl
        exact hsafe.missing_of_status ha hs
  · rintro ⟨hself, htrash, hhonest⟩
    refine ⟨?_, ?_, ?_⟩
    · intro self d evs d' hx hid
      obtain ⟨f, hf, rfl⟩ := List.mem_map.1 hid
      have ha := d'.addressed f hf
      rw [delete_gone (deleteStep_deleting S f.id) (fun _ _ hs => (hhonest ha _ _ hs).1) hx] at hf
      exact (Drive.mem_erase.1 hf).2 (.inl ha)
    · intro self d evs p d' hx f hne
      have hkept : f ∈ d.files → ¬ Removes id f := by
        rintro hf (ha | ⟨ht, _⟩)
        · exact hne (hself f.id ha (d.addressed f hf))
        · exact htrash ht
      rcases delete_effect (deleteStep_deleting S id) hx with rfl | rfl
      · rfl
      · exact ⟨fun hf => (Drive.mem_erase.1 hf).1, fun hf => Drive.mem_erase.2 ⟨hf, hkept hf⟩⟩
    · intro self d evs k d' body hx hid _ hs
      obtain ⟨f, hf, rfl⟩ := List.mem_map.1 hid
      have hm := (hhonest (d.addressed f hf) 404 body hs).2 rfl
      exact runs_delete_missing (hx.runs.snoc _) hm

/-- Responses as Drive sends them are safe for an id as Drive gives it. -/
theorem delete_safe_honest : SafeDelete HonestStatus "a" := by
  refine (delete_safe_iff HonestStatus "a").2 ⟨?_, addresses_a.not_trash, fun _ _ _ hs => hs⟩
  intro i hi _
  exact hi.unique addresses_a

/-- If any error response can come: a 404 whose JSON body names no status makes a delete fail that
has removed the file, a 503 whose body names 404 makes it report a file as deleted that is there,
and a longer way to the file `a` makes it remove `a`. -/
theorem delete_unsafe :
    (∃ msg, Exec (DeleteStep fun _ _ => True) (someDrive plainMime) (twiceStorage.delete "a")
      [⟨.filesDelete "a", none⟩, ⟨.sleep twiceStorage.retry.baseDelay, ()⟩,
        ⟨.filesDelete "a", some (.error (reported 404 (some (.obj []))))⟩]
      (.ret (.error (.storage msg))) ((someDrive plainMime).erase "a")) ∧
    Exec (DeleteStep fun _ _ => True) (someDrive plainMime) (someStorage.delete "a")
      [⟨.filesDelete "a", some (.error (reported 503
        (some (.obj [("error", .obj [("code", .num (some 404) "404")])]))))⟩]
      (.ret (.ok ())) (someDrive plainMime) ∧
    ∃ d, Exec (DeleteStep fun _ _ => True) (someDrive plainMime) (someStorage.delete "x/../a")
      [⟨.filesDelete "x/../a", some (.ok ())⟩] (.ret (.ok ())) d ∧ d.files = [] := by
  refine ⟨?_, ?_, ?_⟩
  · have hlost : Deletes (fun _ _ => True) (someDrive plainMime) "a" none
        ((someDrive plainMime).erase "a") := .lostRemoved (.inl rfl)
    have hmissing : Deletes (fun _ _ => True) ((someDrive plainMime).erase "a") "a"
        (some (.error (reported 404 (some (.obj []))))) ((someDrive plainMime).erase "a") :=
      .missing trivial fun f hf => (Drive.mem_erase.1 hf).2
    exact ⟨_, (delete_twice (.request hlost) .sleep).append
      (.cons (.request hmissing) (.nil _ _))⟩
  · exact delete_once (.request (.refused trivial (by decide)))
  · have ha : Addresses "x/../a" "a" := by decide +kernel
    have hremoved : Deletes (fun _ _ => True) (someDrive plainMime) "x/../a" (some (.ok ()))
        ((someDrive plainMime).erase "x/../a") :=
      .removed fun _ => ⟨_, List.mem_singleton_self _, ha⟩
    refine ⟨_, delete_once (.request hremoved), ?_⟩
    apply List.filter_eq_nil_iff.2
    intro f hf
    rw [List.mem_singleton.1 hf]
    have hr : Removes "x/../a" (someFile "a" "a.pgdump" plainMime) := .inl ha
    simpa using hr

end FastBackup

import FastBackup.GDrive.Prune
import FastBackup.Server.Grpc

namespace FastBackup
open Interaction Paging
set_option autoImplicit true

/-- The page size that is used for the one a client asks for. -/
def effectiveSize (pageSize : Nat) : Nat :=
  if pageSize = 0 then defaultPageSize else min pageSize maxPageSize

/-- The token that is sent to the storage for the one of a client. -/
def sentToken (pageToken : String) : Option String :=
  if pageToken = "" then none else some pageToken

section Client
variable {St DB : Type} (P : Ports St DB) (self : GoogleDriveStorage) (D : DrivePager)
  (w : World Drive DB)

/-- A `ListBackups` over the files of `w` can return `r`. -/
def Lists (req : Proto.ListBackupsRequest) (r : Except Status Proto.ListBackupsReply) : Prop :=
  ∃ t s evs s', s.2.store = w.store ∧
    Exec (Alone (P.onDrive self D) t) s (GrpcBackup.listBackups req) evs (.ret r) s'

/-- A client follows the tokens from `token` on until one is empty, and gets the replies of `visits`
for the page sizes it asks for. It may repeat a request that failed. -/
inductive Follows : String → List (Nat × Proto.ListBackupsReply) → Prop where
  | last (hl : Lists P self D w ⟨size, token⟩ (.ok reply)) (ht : reply.nextPageToken = "") :
      Follows token [(size, reply)]
  | more (hl : Lists P self D w ⟨size, token⟩ (.ok reply)) (ht : reply.nextPageToken ≠ "")
      (hf : Follows reply.nextPageToken visits) : Follows token ((size, reply) :: visits)
  | again (hl : Lists P self D w ⟨size, token⟩ (.error status)) (hf : Follows token visits) :
      Follows token visits

end Client

variable {St DB : Type} {P : Ports St DB} {self : GoogleDriveStorage} {D : DrivePager}
  {w : World Drive DB} {l : List Stored}

/-- A page of Drive as a client gets it. -/
def pageReply (entries : List Stored) (next : Option String) : Proto.ListBackupsReply :=
  ⟨(entries.filterMap Stored.backup).map backupInfo, next.getD ""⟩

theorem grpc_listBackups (req : Proto.ListBackupsRequest) : GrpcBackup.listBackups req =
    .call (.list (effectiveSize req.pageSize) (sentToken req.pageToken)) fun r =>
      .ret (GrpcBackup.reply "Listing failed"
        (fun page => ⟨page.items.map backupInfo, page.nextPageToken.getD ""⟩) r) := rfl

theorem effectiveSize_le (pageSize : Nat) :
    min (effectiveSize pageSize) (2 ^ 31 - 1) = effectiveSize pageSize := by
  have hd : defaultPageSize = 20 := rfl
  have hm : maxPageSize = 100 := rfl
  rw [effectiveSize]
  split <;> omega

theorem Lists.page {req : Proto.ListBackupsRequest} (hl : Lists P self D w req (.ok reply)) :
    ∃ next, D.Next (w.store.folder self.folderId) (effectiveSize req.pageSize)
        (sentToken req.pageToken) next ∧
      reply = pageReply (D.entries (w.store.folder self.folderId) (effectiveSize req.pageSize)
        (sentToken req.pageToken)) next := by
  obtain ⟨t, s, evs, s', hw, hx⟩ := hl
  rw [grpc_listBackups] at hx
  obtain ⟨r, s₁, evs', hs, hret, _⟩ := exec_call_ret hx
  obtain ⟨_, he, _⟩ := exec_ret hret
  obtain ⟨w₁, rfl, hh, _⟩ := hs
  cases r with
  | error e => cases he
  | ok page =>
    cases he
    generalize s₁.2 = w₂ at hh
    cases hh with
    | list _ _ hx =>
      obtain ⟨next, _, _, hn, rfl⟩ := GoogleDriveStorage.list_performs hx
      rw [effectiveSize_le, hw] at hn
      rw [effectiveSize_le, hw]
      exact ⟨next, hn, rfl⟩

/-- A reply without a token is the last page, and one with a token names the next page. -/
theorem DrivePager.Next.cases {token next : Option String} (hn : D.Next l size token next) :
    next.getD "" = "" ∧ D.next l size token = none ∨
      next.getD "" ≠ "" ∧ D.next l size token = some (next.getD "") := by
  rcases hn with rfl | ⟨hn, rfl⟩
  · cases hnext : D.next l size token with
    | none => exact .inl ⟨rfl, rfl⟩
    | some t => exact .inr ⟨D.nonempty hnext, rfl⟩
  · exact .inl ⟨rfl, hn⟩

theorem Follows.walk (hf : Follows P self D w token visits) : ∃ pages,
    D.Walk (w.store.folder self.folderId) (sentToken token)
      (visits.map fun v => effectiveSize v.1) pages ∧
    visits.map (fun v => v.2.backups) =
      pages.map fun page => (page.filterMap Stored.backup).map backupInfo := by
  induction hf with
  | last hl ht =>
    obtain ⟨next, hn, rfl⟩ := hl.page
    obtain ⟨_, hlast⟩ | ⟨hne, _⟩ := hn.cases
    · exact ⟨_, .last hlast, rfl⟩
    · exact absurd ht hne
  | more hl ht _ ih =>
    obtain ⟨next, hn, rfl⟩ := hl.page
    obtain ⟨he, _⟩ | ⟨hne, hnext⟩ := hn.cases
    · exact absurd he ht
    · obtain ⟨pages, hw, hp⟩ := ih
      rw [sentToken, if_neg ht] at hw
      refine ⟨_ :: pages, .more hnext hw, ?_⟩
      rw [List.map_cons, hp]
      rfl
  | again _ _ ih => exact ih

/-- Drive can answer a request of a client. -/
theorem lists_runs (P : Ports St DB) (self : GoogleDriveStorage) (w : World Drive DB)
    (req : Proto.ListBackupsRequest) (hs : D.start (sentToken req.pageToken) = some i) :
    Lists P self D w req (.ok (pageReply (D.entries (w.store.folder self.folderId)
      (effectiveSize req.pageSize) (sentToken req.pageToken))
      (D.next (w.store.folder self.folderId) (effectiveSize req.pageSize)
        (sentToken req.pageToken)))) := by
  obtain ⟨evs, hx⟩ := GoogleDriveStorage.list_runs self ⟨w.store, none⟩
    (effectiveSize req.pageSize) hs
  rw [effectiveSize_le] at hx
  have hh : Handle (P.onDrive self D) 0 w
      (.list (effectiveSize req.pageSize) (sentToken req.pageToken)) _ w :=
    .list w.store (notBusy_ok _) ⟨none, evs, none, hx⟩
  have hx : Exec (Alone (P.onDrive self D) 0) ([], w) (GrpcBackup.listBackups req) _ _ _ :=
    alone_cons hh (.nil _ _)
  exact ⟨0, _, _, _, rfl, hx⟩

/-- A client can read any pages of Drive. -/
theorem follows_of_walk {sizes : List Nat} {pages : List (List Stored)} (P : Ports St DB)
    (hw : D.Walk (w.store.folder self.folderId) (sentToken token) (sizes.map effectiveSize) pages)
    (hs : D.start (sentToken token) = some i) :
    ∃ visits, Follows P self D w token visits ∧ visits.map Prod.fst = sizes := by
  induction sizes generalizing token pages i with
  | nil => cases hw
  | cons size sizes ih =>
    have hl := lists_runs P self w ⟨size, token⟩ hs
    generalize hk : effectiveSize size = k at hl
    rw [List.map_cons, hk] at hw
    generalize hks : sizes.map effectiveSize = ks at hw
    cases hw with
    | last hn =>
      rw [hn] at hl
      rw [List.map_eq_nil_iff] at hks
      subst hks
      exact ⟨_, .last hl rfl, rfl⟩
    | @more _ _ t _ _ hn hw =>
      have ht : t ≠ "" := D.nonempty hn
      have hst : D.start (sentToken t) = some (i + D.count (w.store.folder self.folderId) k
          (sentToken token)) := by
        rw [sentToken, if_neg ht]
        exact D.start_next hs hn
      rw [← hks, show some t = sentToken t by rw [sentToken, if_neg ht]] at hw
      obtain ⟨visits, hf, rfl⟩ := ih hw hst
      rw [hn] at hl
      exact ⟨_, .more hl ht hf, rfl⟩

/-- What `list_all` gives over the files `l` of the folder when Drive answers. -/
def listAllOutcome (D : DrivePager) (l : List Stored) : Except Error (List BackupInfo) :=
  if D.goesOn l 100 100 none then .error (.storage "more than 100 pages of backups")
  else .ok (l.filterMap Stored.backup)

/-- Otherwise `list_all` fails with the error of a page. -/
theorem listAll_outcome {s s' : Hist Drive DB × World Drive DB}
    (hx : Exec (Alone (P.onDrive self D) t) s listAll.run evs (.ret r) s') :
    r = listAllOutcome D (s.2.store.folder self.folderId) ∨
      ∃ size token e, ⟨.list size token, .error e⟩ ∈ evs ∧ r = .error e := by
  have hs : D.start none = some 0 := rfl
  have hsafe : Safe (fun _ _ => True) _ [] listAll.run :=
    safe_listAllFrom fun _ _ _ _ _ => trivial
  obtain ⟨evs', he, hlisted⟩ := hsafe.post_of_runs hx.runs
  rw [List.nil_append] at he
  subst he
  cases r with
  | ok all =>
    obtain ⟨pages, hc, hn, rfl, rfl⟩ := hlisted
    obtain ⟨hall, hgo⟩ := (pages_of_exec hx hs).1 hc
    have hgo : D.goesOn (s.2.store.folder self.folderId) 100 100 none = false :=
      D.goesOn_false_of_le hgo hn
    rw [listAllOutcome, hgo, List.nil_append, hall, List.drop_zero]
    exact .inl rfl
  | error e =>
    obtain ⟨pages, hm, ⟨hn, rfl, rfl⟩ | ⟨hn, rfl⟩⟩ := hlisted
    · have hgo := (pages_of_exec hx hs).2 hm
      rw [hn] at hgo
      rw [listAllOutcome, show D.goesOn _ 100 100 none = true from hgo]
      exact .inl rfl
    · exact .inr ⟨_, _, _, List.mem_append_right _ (List.mem_singleton_self _), rfl⟩

/-- Drive can answer all listings of `list_all`. -/
theorem listAllFrom_runs (P : Ports St DB) (self : GoogleDriveStorage) (t : Nat)
    (w : World Drive DB) (h : Hist Drive DB) (all : List BackupInfo)
    (hs : D.start token = some i) :
    ∃ evs h', Exec (Alone (P.onDrive self D) t) (h, w) (listAllFrom n token all).run evs
      (.ret (if D.goesOn (w.store.folder self.folderId) maxPageSize n token
        then .error (.storage "more than 100 pages of backups")
        else .ok (all ++ ((w.store.folder self.folderId).drop i).filterMap Stored.backup)))
      (h', w) := by
  induction n generalizing token i h all with
  | zero => exact ⟨[], h, .nil _ _⟩
  | succ n ih =>
    generalize hl : w.store.folder self.folderId = l at ih ⊢
    let page : Page BackupInfo :=
      ⟨(D.entries l maxPageSize token).filterMap Stored.backup, D.next l maxPageSize token⟩
    obtain ⟨evs, hx⟩ := GoogleDriveStorage.list_runs self ⟨w.store, none⟩ maxPageSize hs
    simp only [hl] at hx
    have hh : Handle (P.onDrive self D) t w (.list maxPageSize token) (.ok page) w :=
      .list w.store (notBusy_ok _) ⟨none, evs, none, hx⟩
    let h₁ := h ++ [⟨⟨.list maxPageSize token, .ok page⟩, w, w⟩]
    have hread : ∀ r, (∃ evs h', Exec (Alone (P.onDrive self D) t) (h₁, w) (if page.more then
          listAllFrom n page.nextPageToken (all ++ page.items) else
          return all ++ page.items).run evs (.ret r) (h', w)) →
        ∃ evs h', Exec (Alone (P.onDrive self D) t) (h, w) (listAllFrom (n + 1) token all).run evs
          (.ret r) (h', w) := by
      rintro r ⟨evs, h', hx⟩
      rw [listAllFrom_call]
      exact ⟨_, h', alone_cons hh hx⟩
    apply hread
    rw [Pager.goesOn]
    cases hnext : D.next l maxPageSize token with
    | none =>
      have hm : page.more = false := by simp [page, Page.more, hnext]
      have hitems : page.items = (l.drop i).filterMap Stored.backup := by
        simp only [page]
        rw [D.entries_last hs hnext]
      simp only [hm, Bool.false_eq_true, if_false, hitems]
      exact ⟨[], h₁, .nil _ _⟩
    | some t' =>
      have hm : page.more = true := by simp [page, Page.more, hnext, D.nonempty hnext]
      have hitems : page.items ++ (l.drop (i + D.count l maxPageSize token)).filterMap
          Stored.backup = (l.drop i).filterMap Stored.backup := by
        rw [← List.filterMap_append, D.entries_append maxPageSize hs]
      have hloop := ih h₁ (all ++ page.items) (D.start_next hs hnext)
      rw [List.append_assoc, hitems] at hloop
      simp only [hm, if_true]
      rw [show page.nextPageToken = some t' from hnext]
      exact hloop

/-- Paging loses and repeats nothing. A client that follows the tokens from an empty one to an empty
one reads the pages of Drive to the last, whatever sizes it asks for; together they are the backups
of the folder, each once and newest first. `list_all` returns the same backups, unless its pages are
more than 100 or Drive fails to answer. -/
theorem paging_exact (P : Ports St DB) (self : GoogleDriveStorage) (D : DrivePager)
    (w : World Drive DB) :
    let files := w.store.folder self.folderId
    let backups := files.filterMap Stored.backup
    (∀ visits, Follows P self D w "" visits →
      (∃ pages, D.Walk files none (visits.map fun v => effectiveSize v.1) pages ∧
        visits.map (fun v => v.2.backups) =
          pages.map fun page => (page.filterMap Stored.backup).map backupInfo) ∧
      visits.flatMap (fun v => v.2.backups) = backups.map backupInfo) ∧
    (∀ sizes pages, D.Walk files none (sizes.map effectiveSize) pages →
      ∃ visits, Follows P self D w "" visits ∧ visits.map Prod.fst = sizes) ∧
    (backups.map BackupInfo.id).Nodup ∧ backups.Pairwise newestFirst ∧
    (∀ t h evs r s', Exec (Alone (P.onDrive self D) t) (h, w) listAll.run evs (.ret r) s' →
      r = (if D.goesOn files 100 100 none then .error (.storage "more than 100 pages of backups")
        else .ok backups) ∨
      ∃ size token e, ⟨.list size token, .error e⟩ ∈ evs ∧ r = .error e) ∧
    (∀ t h, ∃ evs s', Exec (Alone (P.onDrive self D) t) (h, w) listAll.run evs
      (.ret (if D.goesOn files 100 100 none
        then .error (.storage "more than 100 pages of backups") else .ok backups)) s') := by
  have hs : D.start none = some 0 := rfl
  refine ⟨?_, ?_, w.store.backups_nodup _, w.store.backups_sorted _, ?_, ?_⟩
  · intro visits hf
    obtain ⟨pages, hw, hp⟩ := hf.walk
    refine ⟨⟨pages, hw, hp⟩, ?_⟩
    have hall : pages.flatten = w.store.folder self.folderId := hw.reads.eq_drop hs
    rw [List.flatMap_def, hp, ← hall]
    simp [List.filterMap_flatten, List.map_flatten, Function.comp_def]
  · intro sizes pages hw
    exact follows_of_walk P hw hs
  · intro t h evs r s' hx
    exact listAll_outcome hx
  · intro t h
    obtain ⟨evs, h', hx⟩ := listAllFrom_runs P self t w h [] hs
    exact ⟨evs, _, hx⟩

/-- The file in the middle is no backup. -/
def mixedDrive : Drive where
  files := [someFile "a" "a.pgdump" plainMime, someFile "x" "x.txt" plainMime,
    someFile "b" "b.dump" plainMime]
  nodup := by decide
  sorted := by decide
  addressed := by decide +kernel

def mixedWorld : World Drive Bytes := { driveWorld with store := mixedDrive }

theorem paging_exact_mixed : ∃ visits,
    Follows mapPorts someStorage singlePager mixedWorld "" visits ∧
      visits.map Prod.fst = [1, 0, 700] ∧
      visits.flatMap (fun v => v.2.backups.map Proto.BackupInfo.id) = ["a", "b"] := by
  have hx := paging_exact mapPorts someStorage singlePager mixedWorld
  have hw : singlePager.Walk mixedDrive.files none [1, 20, 100] _ :=
    .more rfl (.more rfl (.last rfl))
  obtain ⟨visits, hf, hsizes⟩ := hx.2.1 [1, 0, 700] _ hw
  refine ⟨visits, hf, hsizes, ?_⟩
  have hall := (hx.1 visits hf).2
  rw [← List.map_flatMap, hall]
  decide +kernel

end FastBackup

import FastBackup.Ranking.Cut
import FastBackup.Server.Alone
import FastBackup.Server.Shape

namespace FastBackup
open Interaction Ranking
set_option autoImplicit true

variable {St DB : Type} {P : Ports St DB}

/-- The storage holds a regular `PgCustom` backup under `id`. -/
def Regular (S : StorageModel St) (s : St) (id : String) : Prop :=
  ∃ b content, S.lookup s id = some (b, content) ∧ prunable b = true

/-- Others may have changed the storage, but have deleted no backup that counts. -/
def Undeleted (S : StorageModel St) (s s' : St) : Prop :=
  ∀ id, Regular S s id → Regular S s' id

/-- One operation with other writers around it, which do not delete backups. -/
abbrev Shared (P : Ports St DB) (t : Nat) :=
  Under (machine P) t fun _ w w' => Undeleted P.storage w.store w'.store

theorem shared_of_alone {p q : Svc α} (hx : Exec (Alone P t) s p evs q s') :
    Exec (Shared P t) s p evs q s' := by
  apply hx.mono
  rintro s e r s' ⟨w, rfl, hh, hs⟩
  exact ⟨_, fun _ hl => hl, hh, hs⟩

/-- The calls delete ids that backups can have, and not `id`. -/
def Spares (S : StorageModel St) (id : String) (evs : List Ev) : Prop :=
  ∀ ev ∈ evs, ∀ id', ev.call = .delete id' → S.proper id' ∧ id' ≠ id

theorem Spares.mono {S : StorageModel St} {id : String} (hd : Spares S id evs)
    (hs : evs' ⊆ evs) : Spares S id evs' :=
  fun ev hm => hd ev (hs hm)

theorem spares_of_none {S : StorageModel St} {id : String}
    (hd : ∀ ev ∈ evs, ∀ id, ev.call ≠ .delete id) : Spares S id evs :=
  fun ev hm id' he => absurd he (hd ev hm id')

/-- The storage holds something with the property `X` under `id`. -/
def Holds (S : StorageModel St) (X : BackupInfo × Bytes → Prop) (s : St) (id : String) : Prop :=
  ∃ x, S.lookup s id = some x ∧ X x

theorem regular_iff_holds {S : StorageModel St} {id : String} :
    Regular S s id ↔ Holds S (fun x => prunable x.1 = true) s id := by
  constructor
  · rintro ⟨b, content, hl, hb⟩
    exact ⟨(b, content), hl, hb⟩
  · rintro ⟨⟨b, content⟩, hl, hb⟩
    exact ⟨b, content, hl, hb⟩

section Kept
variable {X : BackupInfo × Bytes → Prop} {ρ : Hist St DB → World St DB → World St DB → Prop}
  {s s' : Hist St DB × World St DB} {p q : Svc α}

/-- What was listed was stored. -/
theorem listed_lookup (hx : Exec (Under (machine P) t ρ) s p evs q s')
    (hev : ⟨.list size token, .ok page⟩ ∈ evs) (hi : i ∈ page.items) :
    ∃ evs₁ evs₂, evs = evs₁ ++ evs₂ ∧ ∃ p₁ s₁, Exec (Under (machine P) t ρ) s₁ p₁ evs₂ q s' ∧
      ∃ content, P.storage.lookup s₁.2.store i.id = some (i, content) := by
  obtain ⟨evs₁, evs₂, rfl⟩ := List.append_of_mem hev
  obtain ⟨p', s₁, _, hx₂⟩ := hx.split
  obtain ⟨w, w', p₁, hu, hh, hx₃⟩ := exec_uncons hx₂
  cases hh with
  | list _ _ hs =>
    obtain ⟨content, hl⟩ := P.storage.names_lookup (P.storage.list_names hs i hi)
    rw [← P.storage.read_only rfl hs] at hl
    exact ⟨evs₁ ++ [⟨.list size token, .ok page⟩], evs₂, by rw [List.append_assoc]; rfl, p₁, _,
      hx₃, content, hl⟩

theorem listed_proper (hx : Exec (Under (machine P) t ρ) s p evs q s')
    (hev : ⟨.list size token, .ok page⟩ ∈ evs) (hi : i ∈ page.items) : P.storage.proper i.id := by
  obtain ⟨_, _, _, _, _, _, _, hl⟩ := listed_lookup hx hev hi
  exact P.storage.lookup_proper hl

variable {id : String}
  (hρ : ∀ h w w', ρ h w w' → Holds P.storage X w.store id → Holds P.storage X w'.store id)

include hρ

/-- What others keep stays until the operation itself deletes it. -/
theorem holds_of_exec (hx : Exec (Under (machine P) t ρ) s p evs q s')
    (hd : Spares P.storage id evs) (hs : Holds P.storage X s.2.store id) :
    Holds P.storage X s'.2.store id := by
  induction hx with
  | nil => exact hs
  | cons hstep _ ih =>
    obtain ⟨w, hu, hh, _⟩ := hstep
    apply ih fun ev hm => hd ev (List.mem_cons_of_mem _ hm)
    obtain ⟨x, hl, hX⟩ := hρ _ _ _ hu hs
    have hfirst := hd _ (List.mem_cons_self ..)
    have hne : _ ≠ Call.delete id := fun he => (hfirst id he).2 rfl
    exact ⟨x, Handle.lookup_kept hh hne (fun id' he => (hfirst id' he).1) hl, hX⟩

/-- What was listed is stored, unless the operation deleted it since. -/
theorem listed_of_exec (hx : Exec (Under (machine P) t ρ) s p evs q s')
    (hev : ⟨.list size token, .ok page⟩ ∈ evs) (hi : i ∈ page.items) (hid : i.id = id)
    (hX : ∀ content, X (i, content)) (hd : Spares P.storage id evs) :
    Holds P.storage X s'.2.store id := by
  obtain ⟨evs₁, evs₂, rfl, p₁, s₁, hx₂, content, hl⟩ := listed_lookup hx hev hi
  rw [hid] at hl
  exact holds_of_exec hρ hx₂ (hd.mono (List.subset_append_right ..)) ⟨_, hl, hX content⟩

/-- And so is what was uploaded. -/
theorem uploaded_of_exec (hx : Exec (Under (machine P) t ρ) s p evs q s')
    (hev : ⟨.upload req, .ok info⟩ ∈ evs) (hid : info.id = id)
    (hX : ∀ content, X (info, content)) (hd : Spares P.storage id evs) :
    Holds P.storage X s'.2.store id := by
  obtain ⟨evs₁, evs₂, rfl⟩ := List.append_of_mem hev
  obtain ⟨p', s₁, _, hx₂⟩ := hx.split
  obtain ⟨w, w', _, hu, hh, hx₃⟩ := exec_uncons hx₂
  cases hh with
  | upload content _ _ _ hs =>
    have hl := (P.storage.upload_ok hs).lookup_new
    rw [hid] at hl
    refine holds_of_exec hρ hx₃ (hd.mono fun ev hm => ?_) ⟨_, hl, hX content⟩
    exact List.mem_append_right _ (List.mem_cons_of_mem _ hm)

end Kept

theorem alone_holds {X : BackupInfo × Bytes → Prop} {id : String} (_ : Hist St DB)
    (w w' : World St DB) (he : w' = w) (hs : Holds P.storage X w.store id) :
    Holds P.storage X w'.store id :=
  he ▸ hs

/-- Of the backups that count in `s`, at least `min keep n` of any `n` are there in `s'`, or others
in their place. -/
def Floor (S : StorageModel St) (keep : Nat) (s s' : St) : Prop :=
  ∀ ids : List String, ids.Nodup → (∀ id ∈ ids, Regular S s id) →
    ∃ ids' : List String, ids'.Nodup ∧ (∀ id ∈ ids', Regular S s' id) ∧
      min keep ids.length ≤ ids'.length

/-- Nothing is beyond the newest `keep` entries of the listing that count, or none of these
entries occurs in it a second time. -/
def Unrepeated (keep : Nat) (items : List BackupInfo) : Prop :=
  (items.filter prunable).length ≤ keep ∨
    ∀ b ∈ (ranked items).take keep, ((items.filter prunable).map BackupInfo.id).count b.id = 1

theorem unrepeated_iff (keep : Nat) (items : List BackupInfo) : Unrepeated keep items ↔
    (ranked items).length ≤ keep ∨ Single keep ((ranked items).map BackupInfo.id) := by
  rw [Unrepeated, (ranked_perm items).length_eq]
  apply or_congr_right
  rw [Single, ← List.map_take]
  simp only [List.forall_mem_map]
  apply forall₂_congr
  intro b _
  rw [((ranked_perm items).map _).count_eq]

/-- The rest of `prune_old_backups` after its listing. -/
def pruneListed (keep : Nat) : Except Error (List BackupInfo) → Svc Unit
  | .ok all => deleteAll (retentionCandidates all keep)
  | .error _ => return ()

theorem runs_prune (hk : deps.retention = some keep)
    (hl : Listed maxRetentionPages none [] listing r) :
    Runs (pruneOldBackups deps) listing (pruneListed keep r) := by
  have hr := (runs_of_listed hl).bind (pruneListed keep)
  have he : pruneOldBackups deps = (listAllFrom maxRetentionPages none []).run >>=
      pruneListed keep := by
    rw [pruneOldBackups, hk]
    apply congrArg ((listAllFrom maxRetentionPages none []).run >>= ·)
    funext r
    cases r <;> rfl
  rwa [he]

theorem exec_deleteAll {step : σ → (e : Call) → e.Reply → σ → Prop}
    (hx : Exec step s (deleteAll bs) evs (.ret ()) s') : ∃ rs, evs = deleteCalls bs rs := by
  have hs : Safe (fun _ _ => True) _ [] (deleteAll bs) :=
    safe_deleteAll fun _ _ _ _ _ _ _ _ => trivial
  obtain ⟨rs, _, hevs⟩ := hs.post_of_runs hx.runs
  exact ⟨rs, by rwa [List.nil_append] at hevs⟩

theorem shared_holds {id : String} (_ : Hist St DB) (w w' : World St DB)
    (hu : Undeleted P.storage w.store w'.store)
    (hs : Holds P.storage (fun x => prunable x.1 = true) w.store id) :
    Holds P.storage (fun x => prunable x.1 = true) w'.store id :=
  regular_iff_holds.1 (hu id (regular_iff_holds.2 hs))

section Floor
variable {p q : Svc α} {s s' : Hist St DB × World St DB}

/-- All that counted before stays when nothing is deleted. -/
theorem floor_of_kept (hx : Exec (Shared P t) s p evs q s')
    (hd : ∀ ev ∈ evs, ∀ id, ev.call ≠ .delete id) :
    Floor P.storage keep s.2.store s'.2.store := by
  intro ids hn hids
  refine ⟨ids, hn, ?_, Nat.min_le_right ..⟩
  intro id hm
  have hs := regular_iff_holds.1 (hids id hm)
  exact regular_iff_holds.2 (holds_of_exec shared_holds hx (spares_of_none hd) hs)

/-- Retention deletes ids that were listed, and none of those it lists first when these come once
only. -/
theorem spares_newest
    (hx : Exec (Shared P t) s p (pageCalls none pages ++
      deleteCalls (retentionCandidates (pages.flatMap Page.items) keep) rs) q s')
    (hsingle : Single keep ((ranked (pages.flatMap Page.items)).map BackupInfo.id))
    (hb : b ∈ (ranked (pages.flatMap Page.items)).take keep) :
    Spares P.storage b.id (pageCalls none pages ++
      deleteCalls (retentionCandidates (pages.flatMap Page.items) keep) rs) := by
  intro ev hev id' he
  rcases List.mem_append.1 hev with hev | hev
  · obtain ⟨_, _, _, rfl⟩ := mem_pageCalls hev
    cases he
  · obtain ⟨b', _, hb', rfl⟩ := mem_deleteCalls hev
    cases he
    obtain ⟨token, page, hi, hlist⟩ := pageCalls_of_item none (mem_of_candidate hb').1
    refine ⟨listed_proper hx (List.mem_append_left _ hlist) hi, ?_⟩
    intro hid
    have hm : b.id ∈ ((ranked (pages.flatMap Page.items)).map BackupInfo.id).take keep := by
      rw [← List.map_take]
      exact List.mem_map_of_mem hb
    apply hsingle.not_mem_drop hm
    rw [← List.map_drop, ← hid]
    exact List.mem_map_of_mem hb'

theorem newest_kept
    (hx : Exec (Shared P t) s p (pageCalls none pages ++
      deleteCalls (retentionCandidates (pages.flatMap Page.items) keep) rs) q s')
    (hsingle : Single keep ((ranked (pages.flatMap Page.items)).map BackupInfo.id))
    (hb : b ∈ (ranked (pages.flatMap Page.items)).take keep) :
    Regular P.storage s'.2.store b.id := by
  obtain ⟨hbi, hbp⟩ := mem_ranked.1 (List.mem_of_mem_take hb)
  obtain ⟨token, page, hi, hlist⟩ := pageCalls_of_item none hbi
  exact regular_iff_holds.2 (listed_of_exec shared_holds hx (List.mem_append_left _ hlist) hi rfl
    (fun _ => hbp) (spares_newest hx hsingle hb))

end Floor

/-- Retention over a listing without repeats keeps the floor. -/
theorem floor_of_unrepeated (hk : deps.retention = some keep)
    (hl : Listed maxRetentionPages none [] listing r)
    (hu : ∀ items, r = .ok items → Unrepeated keep items)
    (hx : Exec (Shared P t) ([], w) (pruneOldBackups deps) (listing ++ evs) (.ret ()) (h, w')) :
    Floor P.storage keep w.store w'.store := by
  obtain ⟨p', s₁, hx₁, hx₂⟩ := hx.split
  have hp' := hx₁.runs.unique (runs_prune hk hl)
  subst hp'
  cases r with
  | error e =>
    obtain ⟨rfl, _⟩ := exec_ret hx₂
    rw [List.append_nil] at hx
    exact floor_of_kept hx fun ev hm id => hl.no_delete ev hm
  | ok items =>
    obtain ⟨rs, rfl⟩ := exec_deleteAll hx₂
    by_cases hlen : (ranked items).length ≤ keep
    · rw [retentionCandidates, List.drop_eq_nil_of_le hlen, deleteCalls, List.zipWith_nil_left,
        List.append_nil] at hx
      exact floor_of_kept hx fun ev hm id => hl.no_delete ev hm
    · -- otherwise the newest `keep` entries stay
      have hsingle := ((unrepeated_iff keep items).1 (hu items rfl)).resolve_left hlen
      obtain ⟨pages, _, _, rfl, rfl⟩ := hl
      intro ids _ _
      refine ⟨((ranked (pages.flatMap Page.items)).take keep).map BackupInfo.id, ?_, ?_, ?_⟩
      · rw [List.map_take]
        exact hsingle.nodup
      · intro id hm
        obtain ⟨b, hb, rfl⟩ := List.mem_map.1 hm
        exact newest_kept hx hsingle hb
      · rw [List.nil_append, Nat.not_le] at hlen
        rw [List.length_map, List.length_take]
        omega

/-- The storage that holds just the listed backups. -/
def listedStore (items : List BackupInfo) : MapStore := fun id =>
  (items.find? fun i => i.id = id).map fun i => (i, [])

theorem listedStore_mem (hsame : ∀ i ∈ items, ∀ j ∈ items, i.id = j.id → i = j)
    (hi : i ∈ items) : listedStore items i.id = some (i, []) := by
  obtain ⟨j, hj⟩ : ∃ j, items.find? (fun j => j.id = i.id) = some j := by
    rw [← Option.isSome_iff_exists, List.find?_isSome]
    exact ⟨i, hi, by simp⟩
  have hid : j.id = i.id := by simpa using List.find?_some hj
  rw [listedStore, hj, hsame j (List.mem_of_find?_eq_some hj) i hi hid]
  rfl

theorem mem_of_listedStore {id : String} (hl : listedStore items id = some (b, content)) :
    b ∈ items ∧ b.id = id := by
  rw [listedStore, Option.map_eq_some_iff] at hl
  obtain ⟨j, hj, he⟩ := hl
  cases he
  exact ⟨List.mem_of_find?_eq_some hj, by simpa using List.find?_some hj⟩

/-- All deletes succeed. -/
theorem alone_deleteAll (bs : List BackupInfo) (h : Hist MapStore Bytes)
    (w : World MapStore Bytes) : ∃ evs h' w', Exec (Alone mapPorts t) (h, w) (deleteAll bs) evs
      (.ret ()) (h', w') ∧ ∀ id, w'.store id = if id ∈ bs.map BackupInfo.id then none
        else w.store id := by
  induction bs generalizing h w with
  | nil => exact ⟨[], h, w, .nil _ _, by simp⟩
  | cons b bs ih =>
    have hok : NotBusy (.ok () : Except Error Unit) := fun e he => by cases he
    let w₁ : World MapStore Bytes := { w with store := Function.update w.store b.id none }
    have hh : Handle mapPorts t w (.delete b.id) (.ok ()) w₁ := .delete _ hok rfl
    obtain ⟨evs, h', w', hx, hs⟩ := ih (h ++ [⟨⟨.delete b.id, .ok ()⟩, w, w₁⟩]) w₁
    refine ⟨_, h', w', alone_cons hh hx, ?_⟩
    intro id
    rw [hs]
    simp only [List.map_cons, List.mem_cons]
    by_cases hm : id ∈ bs.map BackupInfo.id
    · rw [if_pos hm, if_pos (.inr hm)]
    · rw [if_neg hm]
      by_cases he : id = b.id
      · rw [if_pos (.inl he), he]
        exact Function.update_self ..
      · rw [if_neg (not_or.2 ⟨he, hm⟩)]
        exact Function.update_of_ne he ..

/-- A world whose storage holds just the listed backups. -/
def listedWorld (items : List BackupInfo) : World MapStore Bytes :=
  ⟨[], listedStore items, none, fun _ => none, [], fun _ => none⟩

/-- A listing of what is stored, and then all deletes. -/
theorem alone_prune (hk : deps.retention = some keep)
    (hl : Listed maxRetentionPages none [] listing (.ok items))
    (hsame : ∀ i ∈ items, ∀ j ∈ items, i.id = j.id → i = j) :
    ∃ evs h w', Exec (Alone mapPorts t) ([], listedWorld items) (pruneOldBackups deps)
        (listing ++ evs) (.ret ()) (h, w') ∧
      ∀ id, w'.store id = if id ∈ (retentionCandidates items keep).map BackupInfo.id then none
        else listedStore items id := by
  have hread : ∀ ev ∈ listing,
      Handle mapPorts t (listedWorld items) ev.call ev.reply (listedWorld items) := by
    intro ev hev
    obtain ⟨pages, _, _, rfl, rfl⟩ := hl
    obtain ⟨token, page, hpage, rfl⟩ := mem_pageCalls hev
    refine .list _ (fun e he => by cases he) ⟨?_, rfl⟩
    intro i hi
    exact ⟨[], listedStore_mem hsame (List.mem_flatMap.2 ⟨page, hpage, hi⟩)⟩
  obtain ⟨h₁, hx₁⟩ := alone_of_runs (runs_prune hk hl) hread []
  obtain ⟨evs, h, w', hx₂, hs⟩ :=
    alone_deleteAll (t := t) (retentionCandidates items keep) h₁ (listedWorld items)
  exact ⟨evs, h, w', hx₁.append hx₂, hs⟩

/-- Retention after the calls of `listing` keeps the floor in every run, whatever the storage is and
whatever other writers do that delete nothing. -/
def KeepsFloor (keep : Nat) (listing : List Ev) : Prop :=
  ∀ (St DB : Type) (P : Ports St DB) deps t w evs h w', deps.retention = some keep →
    Exec (Shared P t) ([], w) (pruneOldBackups deps) (listing ++ evs) (.ret ()) (h, w') →
    Floor P.storage keep w.store w'.store

/-- Retention keeps the floor if its listing has no repeats among the newest `keep` entries that
count, and only then, when the listing shows each id with one description. -/
theorem floor_iff_unrepeated (keep : Nat) (hl : Listed maxRetentionPages none [] listing r) :
    ((∀ items, r = .ok items → Unrepeated keep items) → KeepsFloor keep listing) ∧
    ((∀ items, r = .ok items → ∀ i ∈ items, ∀ j ∈ items, i.id = j.id → i = j) →
      KeepsFloor keep listing → ∀ items, r = .ok items → Unrepeated keep items) := by
  constructor
  · intro hu St DB P deps t w evs h w' hk hx
    exact floor_of_unrepeated hk hl hu hx
  · rintro hsame hfloor items rfl
    by_contra hrep
    rw [unrepeated_iff, not_or, Nat.not_le] at hrep
    obtain ⟨hlen, hsingle⟩ := hrep
    let l := (ranked items).map BackupInfo.id
    have hk : ServiceDeps.retention ⟨"", "", some keep⟩ = some keep := rfl
    obtain ⟨evs, h, w', hx, hs⟩ := alone_prune (t := 0) hk hl (hsame items rfl)
    have hids : ∀ id ∈ l.dedup, Regular mapStorage (listedStore items) id := by
      intro id hm
      obtain ⟨b, hb, rfl⟩ := List.mem_map.1 (List.mem_dedup.1 hm)
      obtain ⟨hbi, hbp⟩ := mem_ranked.1 hb
      exact ⟨b, [], listedStore_mem (hsame items rfl) hbi, hbp⟩
    obtain ⟨ids', hn, hids', hmin⟩ :=
      hfloor _ _ _ _ _ _ _ _ _ hk (shared_of_alone hx) l.dedup l.nodup_dedup hids
    have hsub : ids'.toFinset ⊆ kept keep l := by
      intro id hid
      obtain ⟨b, content, hb, hbp⟩ := hids' id (List.mem_toFinset.1 hid)
      have hb : w'.store id = some (b, content) := hb
      rw [hs] at hb
      split at hb
      · cases hb
      · rename_i hnd
        obtain ⟨hbi, rfl⟩ := mem_of_listedStore hb
        refine Finset.mem_sdiff.2 ⟨?_, ?_⟩
        · exact List.mem_toFinset.2 (List.mem_map_of_mem (mem_ranked.2 ⟨hbi, hbp⟩))
        · rwa [List.mem_toFinset, ← List.map_drop]
    have hle := Finset.card_le_card hsub
    have h₁ : (kept keep l).card < keep := card_kept_lt_cut hsingle
    have h₂ : (kept keep l).card < l.toFinset.card := card_kept_lt (by rwa [List.length_map])
    rw [List.toFinset_card_of_nodup hn] at hle
    rw [List.card_toFinset] at h₂
    omega

def agedBackup (id : String) (createdAt : DateTime) : BackupInfo :=
  ⟨id, "", createdAt, none, none, .pgCustom, .regular⟩

/-- Two pages that show the older of two backups twice. -/
def repeatedPages : List (Page BackupInfo) :=
  [⟨[agedBackup "a" 2, agedBackup "b" 1], some "t"⟩, ⟨[agedBackup "b" 1], none⟩]

/-- Retention that keeps one backup deletes the older one of `repeatedPages`, and the newer one
stays. -/
theorem floor_once : ∃ evs h w', Exec (Alone mapPorts 0)
      ([], listedWorld (repeatedPages.flatMap Page.items)) (pruneOldBackups ⟨"db", "db", some 1⟩)
      (pageCalls none repeatedPages ++ evs) (.ret ()) (h, w') ∧
    mapStorage.lookup w'.store "b" = none ∧
    Floor mapStorage 1 (listedStore (repeatedPages.flatMap Page.items)) w'.store := by
  have hl : Listed maxRetentionPages none [] (pageCalls none repeatedPages)
      (.ok (repeatedPages.flatMap Page.items)) :=
    ⟨repeatedPages, by simp [repeatedPages, Complete, Page.more],
      by simp [repeatedPages, maxRetentionPages], rfl, rfl⟩
  have hk : ServiceDeps.retention ⟨"db", "db", some 1⟩ = some 1 := rfl
  obtain ⟨evs, h, w', hx, hs⟩ := alone_prune (t := 0) hk hl (by decide)
  refine ⟨evs, h, w', hx, (hs "b").trans (if_pos (by decide)), ?_⟩
  refine (floor_iff_unrepeated 1 hl).1 ?_ _ _ _ _ _ _ _ _ _ hk (shared_of_alone hx)
  intro items he
  rw [← Except.ok.inj he]
  exact .inr (by decide)

/-- Retention over two pages that show the one stored backup twice deletes it. -/
theorem floor_lost : ∃ evs h w', Exec (Alone mapPorts 0) ([], listedWorld [someBackup, someBackup])
      (pruneOldBackups ⟨"db", "db", some 1⟩)
      (pageCalls none [⟨[someBackup], some "t"⟩, ⟨[someBackup], none⟩] ++ evs) (.ret ()) (h, w') ∧
    Regular mapStorage (listedStore [someBackup, someBackup]) "a" ∧
    ∀ id, ¬ Regular mapStorage w'.store id := by
  have hl : Listed maxRetentionPages none []
      (pageCalls none [⟨[someBackup], some "t"⟩, ⟨[someBackup], none⟩])
      (.ok [someBackup, someBackup]) :=
    ⟨[⟨[someBackup], some "t"⟩, ⟨[someBackup], none⟩], by simp [Complete, Page.more],
      by simp [maxRetentionPages], rfl, rfl⟩
  have hk : ServiceDeps.retention ⟨"db", "db", some 1⟩ = some 1 := rfl
  obtain ⟨evs, h, w', hx, hs⟩ := alone_prune (t := 0) hk hl (by simp)
  refine ⟨evs, h, w', hx, ⟨someBackup, [], rfl, rfl⟩, ?_⟩
  rintro id ⟨b, content, hb, _⟩
  have hb : w'.store id = some (b, content) := hb
  rw [hs] at hb
  split at hb
  · cases hb
  · rename_i hn
    obtain ⟨hm, rfl⟩ := mem_of_listedStore hb
    apply hn
    rw [show b = someBackup by simpa using hm]
    decide

/-- What the calls of an operation listed. -/
def listed (evs : List Ev) : List BackupInfo :=
  evs.flatMap fun ev => match ev with
    | ⟨.list _ _, .ok page⟩ => page.items
    | _ => []

theorem listed_append (evs evs' : List Ev) : listed (evs ++ evs') = listed evs ++ listed evs' :=
  List.flatMap_append

theorem listed_pageCalls (token : Option String) (pages : List (Page BackupInfo)) :
    listed (pageCalls token pages) = pages.flatMap Page.items := by
  induction pages generalizing token with
  | nil => rfl
  | cons page pages ih =>
    rw [List.flatMap_cons, ← ih page.nextPageToken]
    rfl

theorem listed_deleteCalls (bs : List BackupInfo) (rs : List (Except Error Unit)) :
    listed (deleteCalls bs rs) = [] := by
  rw [listed, List.flatMap_eq_nil_iff]
  intro ev hm
  obtain ⟨_, _, _, rfl⟩ := mem_deleteCalls hm
  rfl

/-- Fewer entries, fewer candidates. -/
theorem candidates_sublist {all items : List BackupInfo} (hs : items.Sublist all) (keep : Nat) :
    (retentionCandidates items keep).Sublist (retentionCandidates all keep) :=
  (insertionSort_sublist (hs.filter prunable)).drop keep

/-- Retention deletes candidates of what it listed. -/
theorem candidate_of_deleted {id : String} (hk : deps.retention = some keep)
    (hr : Runs (pruneOldBackups deps) evs (.ret ())) (hd : ⟨.delete id, r⟩ ∈ evs) :
    ∃ b ∈ retentionCandidates (listed evs) keep, b.id = id := by
  have hsafe : Safe (fun _ _ => True) _ [] (pruneOldBackups deps) :=
    safe_pruneOldBackups (fun _ _ _ _ _ => trivial) fun _ _ _ _ _ _ _ _ _ _ _ _ _ => trivial
  obtain ⟨evs', he, hp⟩ := hsafe.post_of_runs hr
  rw [List.nil_append] at he
  subst he
  rw [hk] at hp
  obtain ⟨res, listing, hl, hp⟩ := hp
  cases res with
  | error e =>
    rw [show evs = listing from hp] at hd
    exact absurd rfl (hl.no_delete _ hd)
  | ok all =>
    obtain ⟨rs, _, rfl⟩ := hp
    rcases List.mem_append.1 hd with hd | hd
    · exact absurd rfl (hl.no_delete _ hd)
    · obtain ⟨b, _, hb, he⟩ := mem_deleteCalls hd
      obtain ⟨pages, _, _, rfl, rfl⟩ := hl
      rw [listed_append, listed_pageCalls, listed_deleteCalls, List.append_nil]
      exact ⟨b, hb, (Call.delete.inj (Event.mk.inj he).1).symm⟩

/-- Missing entries only make retention more conservative: a candidate of a listing that lacks some
entries is one of the whole listing too, and retention over it deletes no backup that it would keep
over the whole listing. -/
theorem retention_conservative (hn : (all.map BackupInfo.id).Nodup)
    (hs : items.Sublist all) (keep : Nat) :
    (∀ b ∈ retentionCandidates items keep, b ∈ retentionCandidates all keep) ∧
    ∀ deps evs b r, deps.retention = some keep → Runs (pruneOldBackups deps) evs (.ret ()) →
      listed evs = items → b ∈ all → b ∉ retentionCandidates all keep →
      ⟨.delete b.id, r⟩ ∉ evs := by
  refine ⟨fun b hb => (candidates_sublist hs keep).subset hb, ?_⟩
  rintro deps evs b r hk hr rfl hb hkept hd
  obtain ⟨b', hb', hid⟩ := candidate_of_deleted hk hr hd
  have hmem := (candidates_sublist hs keep).subset hb'
  have hsame := List.inj_on_of_nodup_map hn (mem_of_candidate hmem).1 hb hid
  exact hkept (hsame ▸ hmem)

/-- The second newest of three is missing, and the oldest is a candidate of both listings. -/
theorem retention_conservative_two :
    agedBackup "c" 0 ∈ retentionCandidates [agedBackup "a" 2, agedBackup "c" 0] 1 ∧
    agedBackup "c" 0 ∈
      retentionCandidates [agedBackup "a" 2, agedBackup "b" 1, agedBackup "c" 0] 1 := by
  have hs : [agedBackup "a" 2, agedBackup "c" 0].Sublist
      [agedBackup "a" 2, agedBackup "b" 1, agedBackup "c" 0] :=
    ((List.Sublist.refl [agedBackup "c" 0]).cons (agedBackup "b" 1)).cons_cons _
  have hc : agedBackup "c" 0 ∈ retentionCandidates [agedBackup "a" 2, agedBackup "c" 0] 1 := by
    decide
  exact ⟨hc, (retention_conservative (by decide) hs 1).1 _ hc⟩

end FastBackup

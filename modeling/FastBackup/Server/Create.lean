import FastBackup.Server.Retention

namespace FastBackup
open Interaction Ranking
set_option autoImplicit true

variable {St DB : Type} {P : Ports St DB}

/-- `b` comes before `a` in the ranking of a listing: it is newer, or as old and listed first. -/
def RanksBefore (items : List BackupInfo) (a b : BackupInfo) : Prop :=
  b ∈ items ∧ prunable b = true ∧ b.id ≠ a.id ∧
    (a.createdAt < b.createdAt ∨ b.createdAt = a.createdAt ∧ [b, a].Sublist items)

theorem nodup_of_ids {items : List BackupInfo} (hn : (items.map BackupInfo.id).Nodup) :
    (ranked items).Nodup := by
  rw [(ranked_perm items).nodup_iff]
  exact hn.of_map.filter _

/-- The newest `keep` entries come before each candidate. -/
theorem ranks_before_candidate (hn : (items.map BackupInfo.id).Nodup)
    (hb : b ∈ (ranked items).take keep) (ha : a ∈ retentionCandidates items keep) :
    RanksBefore items a b := by
  have hr := nodup_of_ids hn
  obtain ⟨hbi, hbp⟩ := mem_ranked.1 (List.mem_of_mem_take hb)
  obtain ⟨hai, hap⟩ := mem_of_candidate ha
  have hba : [b, a].Sublist (ranked items) := by
    rw [← List.take_append_drop keep (ranked items)]
    exact (List.singleton_sublist.2 hb).append (List.singleton_sublist.2 ha)
  have hne : b ≠ a := by
    rintro rfl
    exact not_pair_sublist_swap hr hba hba
  have hnewer : newestFirst b a := rel_of_mem_take_drop (ranked_sorted items) hb ha
  refine ⟨hbi, hbp, fun hid => hne (List.inj_on_of_nodup_map hn hbi hai hid), ?_⟩
  rcases lt_or_eq_of_le (show a.createdAt ≤ b.createdAt from hnewer) with hlt | heq
  · exact .inl hlt
  · refine .inr ⟨heq.symm, ?_⟩
    have hfb := List.mem_filter.2 ⟨hbi, hbp⟩
    have hfa := List.mem_filter.2 ⟨hai, hap⟩
    -- the sort is stable
    rcases pair_sublist_or hne hfb hfa with h | h
    · exact h.trans List.filter_sublist
    · have hab : newestFirst a b := le_of_eq heq.symm
      exact absurd (List.pair_sublist_insertionSort hab h) (not_pair_sublist_swap hr hba)

theorem created_no_delete {id : String} :
    ∀ ev ∈ created deps file time info, ev.call ≠ .delete id := by
  simp [created, copied]

theorem upload_mem_created :
    ⟨.upload (.pgDump file deps.dumperDbName .regular time), .ok info⟩ ∈
      created deps file time info := by
  simp [created, copied]

/-- What a `create_backup` that deleted something had done before. -/
theorem created_deleted {id : String} (hends : CreateEnds deps evs (.ok info))
    (hd : ev ∈ evs) (hid : ev.call = .delete id) :
    ∃ file time keep pages rs b, deps.retention = some keep ∧
      evs = created deps file time info ++ pageCalls none pages ++
        (deleteCalls (retentionCandidates (pages.flatMap Page.items) keep) rs ++
          [⟨.unlock, ()⟩]) ∧
      b ∈ retentionCandidates (pages.flatMap Page.items) keep ∧ b.id = id := by
  obtain ⟨file, time, evs', hp, rfl⟩ := hends
  have hd : ev ∈ evs' := by
    rcases List.mem_append.1 hd with hd | hd
    · rcases List.mem_append.1 hd with hd | hd
      · exact absurd hid (created_no_delete ev hd)
      · exact hd
    · rw [List.mem_singleton.1 hd] at hid
      cases hid
  cases hk : deps.retention with
  | none =>
    rw [hk] at hp
    rw [show evs' = [] from hp] at hd
    cases hd
  | some keep =>
    rw [hk] at hp
    obtain ⟨r, listing, hl, hp⟩ := hp
    cases r with
    | error e =>
      rw [show evs' = listing from hp] at hd
      exact absurd hid (hl.no_delete ev hd)
    | ok all =>
      obtain ⟨rs, _, rfl⟩ := hp
      obtain ⟨pages, _, _, rfl, rfl⟩ := hl
      rcases List.mem_append.1 hd with hd | hd
      · obtain ⟨_, _, _, rfl⟩ := mem_pageCalls hd
        cases hid
      · obtain ⟨b, _, hb, rfl⟩ := mem_deleteCalls hd
        exact ⟨file, time, keep, pages, rs, b, rfl, by simp only [List.append_assoc]; rfl, hb,
          Call.delete.inj hid⟩

/-- What is listed under the id of the new backup is the new backup. -/
theorem listed_created {p q : Svc α} {s s' : Hist St DB × World St DB}
    (hx : Exec (Alone P t) s p (created deps file time info ++ pageCalls none pages) q s')
    (hb : b ∈ pages.flatMap Page.items) (hid : b.id = info.id) : b = info := by
  have hno : Spares P.storage info.id (created deps file time info ++ pageCalls none pages) := by
    apply spares_of_none
    intro ev hm id
    rcases List.mem_append.1 hm with hm | hm
    · exact created_no_delete ev hm
    · obtain ⟨_, _, _, rfl⟩ := mem_pageCalls hm
      simp
  obtain ⟨token, page, hi, hev⟩ := pageCalls_of_item none hb
  obtain ⟨x, hinfo, hxi⟩ := uploaded_of_exec (X := fun x => x.1 = info) alone_holds hx
    (List.mem_append_left _ upload_mem_created) rfl (fun _ => rfl) hno
  obtain ⟨y, hlook, hyb⟩ := listed_of_exec (X := fun x => x.1 = b) alone_holds hx
    (List.mem_append_right _ hev) hi hid (fun _ => rfl) hno
  rw [hinfo, Option.some.injEq] at hlook
  rw [← hyb, ← hlook, hxi]

/-- A backup reported as created survives its own retention, if the storage lists no backup twice
and fewer than `keep` other backups rank before it. -/
theorem create_survives (hk : deps.retention = some keep)
    (hx : Exec (Alone P t) ([], w) (createBackup deps).run evs (.ret (.ok info)) (h, w'))
    (hn : ((listed evs).map BackupInfo.id).Nodup)
    (hfew : ∀ bs : List BackupInfo, bs.Nodup → (∀ b ∈ bs, RanksBefore (listed evs) info b) →
      bs.length < keep) :
    (∀ ev ∈ evs, ev.call ≠ .delete info.id) ∧
      ∃ content, P.storage.lookup w'.store info.id = some (info, content) := by
  have hends := (createBackup_shape deps).post_of_runs hx.runs
  have hkept : ∀ ev ∈ evs, ev.call ≠ .delete info.id := by
    intro ev hev hid
    obtain ⟨file, time, keep', pages, rs, b, hk', rfl, hb, hbid⟩ :=
      created_deleted hends hev hid
    rw [hk, Option.some.injEq] at hk'
    subst hk'
    have hitems : listed (created deps file time info ++ pageCalls none pages ++
        (deleteCalls (retentionCandidates (pages.flatMap Page.items) keep) rs ++
          [⟨.unlock, ()⟩])) = pages.flatMap Page.items := by
      rw [listed_append, listed_append, listed_append, listed_pageCalls, listed_deleteCalls]
      simp [listed, created, copied]
    rw [hitems] at hn hfew
    -- the deleted entry is the new backup
    have hbi : b = info := by
      obtain ⟨p₁, s₁, hx₁, _⟩ := hx.split
      exact listed_created hx₁ (mem_of_candidate hb).1 hbid
    subst hbi
    have hlen : keep < (ranked (pages.flatMap Page.items)).length := by
      by_contra hle
      rw [retentionCandidates, List.drop_eq_nil_of_le (by omega)] at hb
      cases hb
    have hlt := hfew ((ranked (pages.flatMap Page.items)).take keep)
      ((nodup_of_ids hn).sublist (List.take_sublist ..))
      fun b' hb' => ranks_before_candidate hn hb' hb
    rw [List.length_take] at hlt
    omega
  refine ⟨hkept, ?_⟩
  have hspared : Spares P.storage info.id evs := by
    intro ev hev id' hid
    refine ⟨?_, fun he => hkept ev hev (he ▸ hid)⟩
    obtain ⟨file, time, keep', pages, rs, b, _, rfl, hb, rfl⟩ := created_deleted hends hev hid
    obtain ⟨token, page, hi, hlist⟩ := pageCalls_of_item none (mem_of_candidate hb).1
    exact listed_proper hx (List.mem_append_left _ (List.mem_append_right _ hlist)) hi
  obtain ⟨file, time, evs', _, rfl⟩ := hends
  obtain ⟨⟨info', content⟩, hl, rfl⟩ := uploaded_of_exec (X := fun x => x.1 = info) alone_holds hx
    (List.mem_append_left _ (List.mem_append_left _ upload_mem_created)) rfl (fun _ => rfl) hspared
  exact ⟨content, hl⟩

/-- A new backup that the storage dates `time`, next to `someBackup` from time `0`. -/
def dated (time : DateTime) : BackupInfo :=
  ⟨"b", "b.pgdump", time, none, none, .pgCustom, .regular⟩

def keepOne : ServiceDeps := ⟨"db", "db", some 1⟩

/-- The calls of a `create_backup` that keeps one of the listed `items` and deletes `id`. -/
def keepOneCalls (time : DateTime) (items : List BackupInfo) (id : String) : List Ev :=
  created keepOne "f" 0 (dated time) ++ [⟨.list maxPageSize none, .ok ⟨items, none⟩⟩,
    ⟨.delete id, .ok ()⟩, ⟨.unlock, ()⟩]

theorem keepOne_listed (hi : i = someBackup ∨ i = dated time) : ∃ content,
    Function.update someWorld.store "b" (some (dated time, [1])) i.id = some (i, content) := by
  rcases hi with rfl | rfl
  · exact ⟨[2], rfl⟩
  · exact ⟨[1], rfl⟩

/-- With `keep = 1`, a new backup that the storage dates after the one it holds survives. -/
theorem create_survives_newest : ∃ h w', Exec (Alone mapPorts 0) ([], someWorld)
      (createBackup keepOne).run (keepOneCalls 1 [dated 1, someBackup] "a")
      (.ret (.ok (dated 1))) (h, w') ∧
    ∃ content, mapStorage.lookup w'.store "b" = some (dated 1, content) := by
  have hx : ∃ h w', Exec (Alone mapPorts 0) ([], someWorld) (createBackup keepOne).run
      (keepOneCalls 1 [dated 1, someBackup] "a") (.ret (.ok (dated 1))) (h, w') :=
    ⟨_, _,
      alone_cons (.locked rfl) <|
      alone_cons (.tempFile rfl (by simp [someWorld])) <|
      alone_cons (.dump _ rfl) <|
      alone_cons (.now 0) <|
      alone_cons (.upload _ _ rfl (notBusy_ok _) ⟨rfl, rfl, rfl, rfl⟩) <|
      alone_cons .dropFile <|
      alone_cons (.list _ (notBusy_ok _) ⟨fun i hi => keepOne_listed
        (by simpa [or_comm] using hi), rfl⟩) <|
      alone_cons (.delete _ (notBusy_ok _) rfl) <|
      alone_cons .unlock <|
      .nil _ _⟩
  obtain ⟨h, w', hx⟩ := hx
  refine ⟨h, w', hx, (create_survives rfl hx (by decide) ?_).2⟩
  -- nothing ranks before the new backup
  intro bs _ hbs
  cases bs with
  | nil => decide
  | cons b bs =>
    obtain ⟨hm, _, hne, hlt⟩ := hbs b (List.mem_cons_self ..)
    have hm : b = dated 1 ∨ b = someBackup := by
      simpa [keepOneCalls, listed, created, copied] using hm
    rcases hm with rfl | rfl
    · exact absurd rfl hne
    · rcases hlt with hlt | ⟨heq, _⟩
      · exact absurd hlt (by decide)
      · exact absurd heq (by decide)

/-- With `keep = 1`, a new backup that the storage dates before the one it holds is deleted. -/
theorem create_not_surviving : ∃ h w', Exec (Alone mapPorts 0) ([], someWorld)
      (createBackup keepOne).run (keepOneCalls (-1) [someBackup, dated (-1)] "b")
      (.ret (.ok (dated (-1)))) (h, w') ∧ mapStorage.lookup w'.store "b" = none :=
  ⟨_, _,
    alone_cons (.locked rfl) <|
    alone_cons (.tempFile rfl (by simp [someWorld])) <|
    alone_cons (.dump _ rfl) <|
    alone_cons (.now 0) <|
    alone_cons (.upload _ _ rfl (notBusy_ok _) ⟨rfl, rfl, rfl, rfl⟩) <|
    alone_cons .dropFile <|
    alone_cons (.list _ (notBusy_ok _) ⟨fun i hi => keepOne_listed
      (by simpa using hi), rfl⟩) <|
    alone_cons (.delete _ (notBusy_ok _) rfl) <|
    alone_cons .unlock <|
    .nil _ _, rfl⟩

end FastBackup

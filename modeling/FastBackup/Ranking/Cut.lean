import Mathlib.Data.Finset.Card
import Mathlib.Data.List.Sort

namespace Ranking
set_option autoImplicit true

section Repeats
variable {β : Type} [DecidableEq β]

/-- None of the first `k` entries occurs a second time. -/
def Single (k : Nat) (l : List β) : Prop := ∀ a ∈ l.take k, l.count a = 1

theorem count_take_add_drop (k : Nat) (l : List β) (a : β) :
    (l.take k).count a + (l.drop k).count a = l.count a := by
  rw [← List.count_append, List.take_append_drop]

theorem Single.not_mem_drop {l : List β} (hs : Single k l) (ha : a ∈ l.take k) : a ∉ l.drop k := by
  intro hd
  have hc := count_take_add_drop k l a
  rw [hs a ha] at hc
  have h₁ := List.count_pos_iff.2 ha
  have h₂ := List.count_pos_iff.2 hd
  omega

theorem Single.nodup {l : List β} (hs : Single k l) : (l.take k).Nodup := by
  apply List.nodup_iff_count_le_one.2
  intro a
  by_cases ha : a ∈ l.take k
  · have hc := count_take_add_drop k l a
    rw [hs a ha] at hc
    omega
  · rw [List.count_eq_zero_of_not_mem ha]
    omega

/-- What is left of a list without all that occurs after the first `k` entries. -/
def kept (k : Nat) (l : List β) : Finset β := l.toFinset \ (l.drop k).toFinset

theorem kept_subset_take (k : Nat) (l : List β) : kept k l ⊆ (l.take k).toFinset := by
  intro a ha
  rw [kept, Finset.mem_sdiff, List.mem_toFinset, List.mem_toFinset] at ha
  have hl : a ∈ l.take k ++ l.drop k := by
    rw [List.take_append_drop]
    exact ha.1
  rw [List.mem_toFinset]
  exact (List.mem_append.1 hl).resolve_right ha.2

theorem card_take_le (k : Nat) (l : List β) : (l.take k).toFinset.card ≤ k :=
  (List.toFinset_card_le _).trans (List.length_take_le k l)

/-- A repeated entry among the first `k` costs one of them. -/
theorem card_kept_lt_cut {l : List β} (hs : ¬ Single k l) : (kept k l).card < k := by
  rw [Single, not_forall] at hs
  obtain ⟨a, ha⟩ := hs
  rw [Classical.not_imp] at ha
  obtain ⟨ha, hc⟩ := ha
  have hpos := List.count_pos_iff.2 ha
  by_cases hd : a ∈ l.drop k
  · have hsub : kept k l ⊆ (l.take k).toFinset.erase a := by
      intro b hb
      apply Finset.mem_erase.2
      refine ⟨?_, kept_subset_take k l hb⟩
      rintro rfl
      exact (Finset.mem_sdiff.1 hb).2 (List.mem_toFinset.2 hd)
    have hlt := Finset.card_erase_lt_of_mem (List.mem_toFinset.2 ha)
    have hle := Finset.card_le_card hsub
    have htake := card_take_le k l
    omega
  · have hadd := count_take_add_drop k l a
    rw [List.count_eq_zero_of_not_mem hd] at hadd
    have hdup : ¬ (l.take k).Nodup := by
      intro hn
      have hone := List.nodup_iff_count_le_one.1 hn a
      omega
    have hlt : (l.take k).toFinset.card < (l.take k).length := by
      apply lt_of_le_of_ne (List.toFinset_card_le _)
      intro he
      exact hdup (Multiset.toFinset_card_eq_card_iff_nodup.1 he)
    have hle := Finset.card_le_card (kept_subset_take k l)
    have htake := List.length_take_le k l
    omega

theorem card_kept_lt {l : List β} (hk : k < l.length) : (kept k l).card < l.toFinset.card := by
  have hne : l.drop k ≠ [] := by
    intro he
    rw [List.drop_eq_nil_iff] at he
    omega
  obtain ⟨b, hb⟩ := List.exists_mem_of_ne_nil _ hne
  apply Finset.card_lt_card
  refine ⟨Finset.sdiff_subset, ?_⟩
  intro hsub
  have hin := hsub (List.mem_toFinset.2 (List.mem_of_mem_drop hb))
  exact (Finset.mem_sdiff.1 hin).2 (List.mem_toFinset.2 hb)

end Repeats

section Order

/-- Two entries of a list stand in one of the two orders. -/
theorem pair_sublist_or {l : List α} (hne : a ≠ b) (ha : a ∈ l) (hb : b ∈ l) :
    [a, b].Sublist l ∨ [b, a].Sublist l := by
  induction l with
  | nil => cases ha
  | cons c l ih =>
    rcases List.mem_cons.1 ha with rfl | ha'
    · have hb' := (List.mem_cons.1 hb).resolve_left hne.symm
      exact .inl ((List.singleton_sublist.2 hb').cons_cons a)
    · rcases List.mem_cons.1 hb with rfl | hb'
      · exact .inr ((List.singleton_sublist.2 ha').cons_cons b)
      · rcases ih ha' hb' with h | h
        · exact .inl (h.cons c)
        · exact .inr (h.cons c)

/-- And, without repeats, in only one of them. -/
theorem not_pair_sublist_swap {l : List α} (hn : l.Nodup) (hab : [a, b].Sublist l) :
    ¬ [b, a].Sublist l := by
  intro hba
  induction l with
  | nil => cases hab
  | cons c l ih =>
    obtain ⟨hc, hn⟩ := List.nodup_cons.1 hn
    cases hab with
    | cons _ hab =>
      cases hba with
      | cons _ hba => exact ih hn hab hba
      | cons_cons _ hba => exact hc (hab.subset (by simp))
    | cons_cons _ hab =>
      cases hba with
      | cons _ hba => exact hc (hba.subset (by simp))
      | cons_cons _ hba => exact hc (List.singleton_sublist.1 hba)

/-- A stable sort keeps the relative order: what is sorted without some entries is what is sorted
with them, without these. -/
theorem insertionSort_sublist {r : α → α → Prop} [DecidableRel r] [IsTrans α r] [Std.Total r]
    {l l' : List α} (h : l'.Sublist l) : (l'.insertionSort r).Sublist (l.insertionSort r) := by
  induction h with
  | slnil => exact .refl _
  | cons a _ ih => exact ih.trans (List.sublist_orderedInsert a _)
  | cons_cons a _ ih => exact ih.orderedInsert_sublist a (List.pairwise_insertionSort r _)

end Order

/-- In a sorted list the first `k` entries come before the others. -/
theorem rel_of_mem_take_drop {r : α → α → Prop} {l : List α} (hl : l.Pairwise r)
    (ha : a ∈ l.take k) (hb : b ∈ l.drop k) : r a b := by
  rw [← List.take_append_drop k l] at hl
  exact (List.pairwise_append.1 hl).2.2 a ha b hb

/-- To leave out what comes after the first `k` entries is to keep these, if no key repeats. -/
theorem filter_not_mem_drop [DecidableEq β] {l : List α} {key : α → β} (hn : (l.map key).Nodup)
    (k : Nat) : (l.filter fun a => key a ∉ (l.drop k).map key) = l.take k := by
  have hcut := List.take_append_drop k l
  rw [← hcut, List.map_append] at hn
  have hdisj := List.disjoint_of_nodup_append hn
  conv_lhs => rw [← hcut, List.filter_append]
  rw [hcut]
  have htake : (l.take k).filter (fun a => key a ∉ (l.drop k).map key) = l.take k := by
    apply List.filter_eq_self.2
    intro a ha
    exact decide_eq_true fun hd => hdisj (List.mem_map_of_mem ha) hd
  have hdrop : (l.drop k).filter (fun a => key a ∉ (l.drop k).map key) = [] := by
    apply List.filter_eq_nil_iff.2
    intro a ha
    rw [decide_eq_true_eq, not_not]
    exact List.mem_map_of_mem ha
  rw [htake, hdrop, List.append_nil]

end Ranking

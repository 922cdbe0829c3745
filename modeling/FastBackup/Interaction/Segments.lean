import FastBackup.Interaction.Pool
import Mathlib.Data.List.Nodup

namespace Interaction
set_option autoImplicit true

variable {E : Type}

/-- The trace made of one segment after the other. -/
def flat (segs : List (Nat × List E)) : List (Nat × E) :=
  segs.flatMap fun s => s.2.map (s.1, ·)

/-- A trace made of one segment for each task, where only `owner` may extend its segment, which is
then the last one. -/
def Segmented (owner : Option Nat) (tr : List (Nat × E)) : Prop :=
  ∃ segs, tr = flat segs ∧ (segs.map Prod.fst).Nodup ∧ (∀ s ∈ segs, s.2 ≠ []) ∧
    ∀ t, owner = some t → t ∈ segs.map Prod.fst → ∃ init calls, segs = init ++ [(t, calls)]

theorem flat_cons (s : Nat × List E) (segs : List (Nat × List E)) :
    flat (s :: segs) = s.2.map (s.1, ·) ++ flat segs := rfl

theorem flat_append (segs segs' : List (Nat × List E)) :
    flat (segs ++ segs') = flat segs ++ flat segs' := List.flatMap_append

theorem flat_singleton (t : Nat) (calls : List E) : flat [(t, calls)] = calls.map (t, ·) :=
  List.append_nil _

theorem mem_flat {segs : List (Nat × List E)} (hm : c ∈ flat segs) : c.1 ∈ segs.map Prod.fst := by
  obtain ⟨s, hs, hc⟩ := List.mem_flatMap.1 hm
  obtain ⟨e, _, rfl⟩ := List.mem_map.1 hc
  exact List.mem_map_of_mem hs

theorem Segmented.nil (owner : Option Nat) : Segmented owner ([] : List (Nat × E)) :=
  ⟨[], rfl, List.nodup_nil, by simp, by simp⟩

/-- The owner may change to none, or to a task without calls. -/
theorem Segmented.owner {tr : List (Nat × E)} (hs : Segmented o tr)
    (ho : ∀ t, o' = some t → o = some t ∨ ∀ c ∈ tr, c.1 ≠ t) : Segmented o' tr := by
  obtain ⟨segs, rfl, hn, hne, hlast⟩ := hs
  refine ⟨segs, rfl, hn, hne, ?_⟩
  intro t ht hm
  rcases ho t ht with h | h
  · exact hlast t h hm
  · obtain ⟨⟨t', calls⟩, hs, rfl⟩ := List.mem_map.1 hm
    obtain ⟨e, rest, rfl⟩ := List.exists_cons_of_ne_nil (hne _ hs)
    exact absurd rfl (h (t', e) (List.mem_flatMap.2 ⟨_, hs, List.mem_cons_self ..⟩))

/-- The owner's calls go to the last segment. -/
theorem Segmented.push {tr : List (Nat × E)} (hs : Segmented (some t) tr) (e : E) :
    Segmented (some t) (tr ++ [(t, e)]) := by
  obtain ⟨segs, rfl, hn, hne, hlast⟩ := hs
  by_cases hm : t ∈ segs.map Prod.fst
  · obtain ⟨init, calls, rfl⟩ := hlast t rfl hm
    refine ⟨init ++ [(t, calls ++ [e])], ?_, ?_, ?_, ?_⟩
    · simp only [flat_append, flat_singleton, List.append_assoc, List.map_append, List.map_cons,
        List.map_nil]
    · simpa using hn
    · intro s hs
      rcases List.mem_append.1 hs with hs | hs
      · exact hne s (List.mem_append_left _ hs)
      · rw [List.mem_singleton.1 hs]
        simp
    · rintro t' ht' _
      exact ⟨init, calls ++ [e], by rw [Option.some.inj ht']⟩
  · refine ⟨segs ++ [(t, [e])], ?_, ?_, ?_, ?_⟩
    · rw [flat_append, flat_singleton]
      rfl
    · rw [List.map_append]
      refine List.nodup_append.2 ⟨hn, List.nodup_singleton _, ?_⟩
      intro a ha b hb hab
      rw [hab, List.mem_singleton.1 hb] at ha
      exact hm ha
    · intro s hs
      rcases List.mem_append.1 hs with hs | hs
      · exact hne s hs
      · rw [List.mem_singleton.1 hs]
        simp
    · rintro t' ht' _
      exact ⟨segs, [e], by rw [Option.some.inj ht']⟩

/-- Between two calls of one task there are only calls of this task. -/
theorem between_of_flat {segs : List (Nat × List E)} (hn : (segs.map Prod.fst).Nodup)
    (he : flat segs = a ++ (t, e) :: (b ++ (t, e') :: c)) : ∀ p ∈ b, p.1 = t := by
  induction segs generalizing a with
  | nil => simp [flat] at he
  | cons s segs ih =>
    rw [List.map_cons, List.nodup_cons] at hn
    have hin : ∀ {p : Nat × E} {l l'}, s.2.map (s.1, ·) = l ++ p :: l' → p.1 = s.1 := by
      intro p l l' hl
      have hm : p ∈ s.2.map (s.1, ·) := by rw [hl]; simp
      obtain ⟨_, _, rfl⟩ := List.mem_map.1 hm
      rfl
    rw [flat_cons] at he
    rcases List.append_eq_append_iff.1 he with ⟨a', _, he⟩ | ⟨l, hl, he⟩
    · exact ih hn.2 he
    · cases l with
      | nil => exact ih (a := []) hn.2 he.symm
      | cons p l =>
        rw [List.cons_append, List.cons.injEq] at he
        obtain ⟨rfl, he⟩ := he
        have ht : t = s.1 := hin hl
        rcases List.append_eq_append_iff.1 he with ⟨l', hl', _⟩ | ⟨b', hb', he'⟩
        · intro p hp
          obtain ⟨b₁, b₂, rfl⟩ := List.append_of_mem hp
          rw [hl', List.append_assoc, List.cons_append, ← List.cons_append,
            ← List.append_assoc] at hl
          exact (hin hl).trans ht.symm
        · have hm : (t, e') ∈ flat segs := by rw [he']; simp
          exact absurd (ht ▸ mem_flat hm) hn.1

theorem flat_filter (p : E → Bool) (segs : List (Nat × List E)) :
    (flat segs).filter (fun c => p c.2) = flat (segs.map fun s => (s.1, s.2.filter p)) := by
  simp [flat, List.filter_flatMap, List.flatMap_map, List.filter_map, Function.comp_def]

/-- A segment holds all calls of its task. -/
theorem callsOf_flat {segs : List (Nat × List E)} (hn : (segs.map Prod.fst).Nodup)
    (hs : (t, calls) ∈ segs) : callsOf t (flat segs) = calls := by
  have hother : ∀ {segs : List (Nat × List E)} {t}, t ∉ segs.map Prod.fst →
      callsOf t (flat segs) = [] := by
    intro segs t hm
    rw [callsOf, List.map_eq_nil_iff, List.filter_eq_nil_iff]
    intro c hc he
    rw [← show c.1 = t by simpa using he] at hm
    exact hm (mem_flat hc)
  induction segs with
  | nil => cases hs
  | cons s' segs ih =>
    rw [List.map_cons, List.nodup_cons] at hn
    rw [flat_cons, callsOf_append]
    rcases List.mem_cons.1 hs with rfl | hs
    · rw [hother hn.1, List.append_nil]
      simp [callsOf, List.filter_map, Function.comp_def]
    · have hne : s'.1 ≠ t := fun he => hn.1 (he ▸ List.mem_map_of_mem hs)
      rw [ih hn.2 hs]
      simp [callsOf, List.filter_map, Function.comp_def, hne]

/-- The issued calls of a task begin the calls of some run to the end that extends its history. -/
theorem Traced.complete {σ O α : Type} {R : E → Type} [∀ e, Nonempty (R e)] {M : Machine σ E R}
    {x : Task σ E R O α} (hx : Traced M calls pending x) :
    ∃ h out, Runs x.rest h (.ret out) ∧ calls <+: awaited M (x.events ++ h) := by
  have happ : ∀ h, awaited M (x.events ++ h) = awaited M x.events ++ awaited M h := by
    intro h
    simp [awaited]
  rcases hx.pending_eq with hn | ⟨e, k, hk, ha, hn⟩
  · obtain ⟨h, out, hr⟩ := Runs.complete x.rest
    refine ⟨h, out, hr, ?_⟩
    rw [hx.calls_eq, hn, List.append_nil, happ]
    exact List.prefix_append ..
  · obtain ⟨r⟩ : Nonempty (R e) := inferInstance
    obtain ⟨h, out, hr⟩ := Runs.complete (k r)
    refine ⟨⟨e, r⟩ :: h, out, by rw [hk]; exact .cons r hr, awaited M h, ?_⟩
    rw [hx.calls_eq, hn, happ, List.append_assoc]
    simp [awaited, ha]

end Interaction

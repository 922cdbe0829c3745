import FastBackup.Interaction.Pool

namespace Interaction
set_option autoImplicit true

variable {σ E : Type} {R : E → Type} {O α : Type}

/-- Two tasks that differ at most in the worlds they saw. -/
structure Task.Matches (x y : Task σ E R O α) : Prop where
  op : y.op = x.op
  events : y.events = x.events
  rest : y.rest = x.rest
  phase : y.phase = x.phase

/-- Whether `t` is a task for an operation that `keep` selects. -/
def Pool.keeps (keep : O → Bool) (c : Pool σ E R O α) (t : Nat) : Bool :=
  (c.tasks t).any fun x => keep x.op

/-- The tasks of `d` are those of `c` that `keep` selects, with the same calls in the same order. -/
structure Pool.Shows (keep : O → Bool) (c d : Pool σ E R O α) : Prop where
  kept : ∀ t x, c.tasks t = some x → keep x.op = true → ∃ y, d.tasks t = some y ∧ x.Matches y
  hidden : ∀ t, c.keeps keep t = false → d.tasks t = none
  trace : d.trace = c.trace.filter fun p => c.keeps keep p.1

/-- The tasks that `keep` does not select can be left out: `I` relates a pool to the world that the
other tasks alone would have made of it. -/
structure Forgets (M : Machine σ E R) (body : O → Prog E R α) (keep : O → Bool)
    (c₀ : Pool σ E R O α) (I : Pool σ E R O α → σ → Prop) : Prop where
  spawn (op : O) : Steps M body c₀ c → I c w → c.tasks t = none →
    I (c.put t (.start body op) c.world []) w
  hidden : Steps M body c₀ c → I c w → c.tasks t = some x → keep x.op = false →
    Move M t c.world x v x' tr → I (c.put t x' v tr) w
  reply {k : R e → Prog E R α} (phase : Phase) : Steps M body c₀ c → I c w → c.tasks t = some x →
    keep x.op = true → x.phase.active = true → x.rest = .call e k → M.handle c.world t e r v →
    phase.active = true →
    ∃ w', M.handle w t e r w' ∧ I (c.put t (x.reply e r c.world v (k r) phase) v []) w'
  invoke {k : R e → Prog E R α} : Steps M body c₀ c → I c w → c.tasks t = some x →
    keep x.op = true → x.phase = .ready → x.rest = .call e k → M.awaits e = true →
    I (c.put t { x with phase := .waiting } (M.invoke c.world t e) [(t, e)]) (M.invoke w t e)
  resume : Steps M body c₀ c → I c w → c.tasks t = some x → keep x.op = true →
    x.phase = .answered → I (c.put t { x with phase := .ready } c.world []) w
  finish : Steps M body c₀ c → I c w → c.tasks t = some x → keep x.op = true →
    x.phase = .ready → x.rest = .ret a → I (c.put t { x with phase := .finished } c.world []) w
  drop : Steps M body c₀ c → I c w → c.tasks t = some x → keep x.op = true →
    (x.phase = .waiting ∨ x.phase = .answered) →
    I (c.put t { x with phase := .dropped } (M.abandon c.world t x.events) [])
      (M.abandon w t x.events)
  release : Steps M body c₀ c → I c w → c.tasks t = some x → keep x.op = true →
    x.phase = .finished →
    I (c.put t { x with phase := .released } (M.abandon c.world t x.events) [])
      (M.abandon w t x.events)
  env : Steps M body c₀ c → I c w → M.env c.world v →
    ∃ w', (w' = w ∨ M.env w w') ∧ I { c with world := v } w'

variable {M : Machine σ E R} {body : O → Prog E R α} {keep : O → Bool} {c₀ c c' d : Pool σ E R O α}
  {I : Pool σ E R O α → σ → Prop} {x y : Task σ E R O α}

theorem Pool.keeps_some (hx : c.tasks t = some x) : c.keeps keep t = keep x.op := by
  rw [Pool.keeps, hx]
  rfl

theorem Pool.keeps_put (c : Pool σ E R O α) (x : Task σ E R O α) (v : σ) (tr : List (Nat × E)) :
    (c.put t x v tr).keeps keep t = keep x.op :=
  Pool.keeps_some (Pool.put_self ..)

theorem Pool.keeps_other (c : Pool σ E R O α) (x : Task σ E R O α) (v : σ) (tr : List (Nat × E))
    (ht : t' ≠ t) : (c.put t x v tr).keeps keep t' = c.keeps keep t' := by
  rw [Pool.keeps, Pool.put_of_ne _ _ _ _ ht]
  rfl

theorem Task.Matches.reply (hm : x.Matches y) (e : E) (r : R e) (v v' w w' : σ)
    (rest : Prog E R α) (phase : Phase) :
    (x.reply e r v v' rest phase).Matches (y.reply e r w w' rest phase) := by
  refine ⟨hm.op, ?_, rfl, rfl⟩
  rw [Task.events_reply, Task.events_reply, hm.events]

theorem Task.Matches.phase_set (hm : x.Matches y) (phase : Phase) :
    ({ x with phase := phase } : Task σ E R O α).Matches { y with phase := phase } :=
  ⟨hm.op, hm.events, hm.rest, rfl⟩

theorem Move.trace_self (hm : Move M t w x w' x' tr) : ∀ p ∈ tr, p.1 = t := by
  cases hm with
  | invoke => simp
  | _ => simp

/-- A kept task is new or changes. -/
theorem Pool.Shows.put_kept (hs : c.Shows keep d) (hk : keep x.op = true) (hm : x.Matches y)
    (hold : c.keeps keep t = true ∨ ∀ p ∈ c.trace, p.1 ≠ t) (htr : ∀ p ∈ tr, p.1 = t) :
    (c.put t x v tr).Shows keep (d.put t y w tr) where
  kept t' x' hx' hk' := by
    by_cases ht : t' = t
    · subst ht
      rw [Pool.put_self, Option.some.injEq] at hx'
      subst hx'
      exact ⟨y, Pool.put_self .., hm⟩
    · rw [Pool.put_of_ne _ _ _ _ ht] at hx' ⊢
      exact hs.kept t' x' hx' hk'
  hidden t' hn := by
    by_cases ht : t' = t
    · rw [ht, Pool.keeps_put, hk] at hn
      cases hn
    · rw [Pool.put_of_ne _ _ _ _ ht]
      rw [Pool.keeps_other _ _ _ _ ht] at hn
      exact hs.hidden t' hn
  trace := by
    have hbefore : c.trace.filter (fun p => (c.put t x v tr).keeps keep p.1) =
        c.trace.filter fun p => c.keeps keep p.1 := by
      apply List.filter_congr
      intro p hp
      by_cases ht : p.1 = t
      · rcases hold with hold | hold
        · rw [ht, Pool.keeps_put, hold, hk]
        · exact absurd ht (hold p hp)
      · rw [Pool.keeps_other _ _ _ _ ht]
    have hnew : tr.filter (fun p => (c.put t x v tr).keeps keep p.1) = tr := by
      apply List.filter_eq_self.2
      intro p hp
      rw [htr p hp, Pool.keeps_put, hk]
    have hadd : (c.put t x v tr).trace = c.trace ++ tr := rfl
    rw [hadd, List.filter_append, hbefore, hnew, ← hs.trace]
    rfl

/-- A task that is left out is new or changes. -/
theorem Pool.Shows.put_hidden (hs : c.Shows keep d) (hk : keep x.op = false)
    (hold : c.keeps keep t = false) (htr : ∀ p ∈ tr, p.1 = t) :
    (c.put t x v tr).Shows keep d := by
  have hsame : ∀ t', (c.put t x v tr).keeps keep t' = c.keeps keep t' := by
    intro t'
    by_cases ht : t' = t
    · rw [ht, Pool.keeps_put, hk, hold]
    · exact Pool.keeps_other _ _ _ _ ht
  refine ⟨?_, ?_, ?_⟩
  · intro t' x' hx' hk'
    have ht : t' ≠ t := by
      rintro rfl
      rw [Pool.put_self, Option.some.injEq] at hx'
      rw [← hx', hk] at hk'
      cases hk'
    rw [Pool.put_of_ne _ _ _ _ ht] at hx'
    exact hs.kept t' x' hx' hk'
  · intro t' hn
    rw [hsame] at hn
    exact hs.hidden t' hn
  · have hnew : tr.filter (fun p => c.keeps keep p.1) = [] := by
      apply List.filter_eq_nil_iff.2
      intro p hp
      rw [htr p hp, hold]
      exact Bool.false_ne_true
    have hadd : (c.put t x v tr).trace = c.trace ++ tr := rfl
    simp only [hsame]
    rw [hadd, List.filter_append, hnew, List.append_nil, hs.trace]

/-- A move of a kept task is a move of its image. -/
theorem Forgets.move (hf : Forgets M body keep c₀ I) (hr : Steps M body c₀ c) (hi : I c w)
    (hx : c.tasks t = some x) (hk : keep x.op = true) (hm : x.Matches y)
    (hv : Move M t c.world x v x' tr) :
    ∃ w' y', Move M t w y w' y' tr ∧ x'.Matches y' ∧ I (c.put t x' v tr) w' := by
  cases hv with
  | now hp hc ha hh =>
    obtain ⟨w', hh', hi'⟩ := hf.reply .ready hr hi hx hk (by rw [hp]; rfl) hc hh rfl
    exact ⟨w', _, .now (hm.phase.trans hp) (hm.rest.trans hc) ha hh', hm.reply .., hi'⟩
  | effect hp hc hh =>
    obtain ⟨w', hh', hi'⟩ := hf.reply .answered hr hi hx hk (by rw [hp]; rfl) hc hh rfl
    exact ⟨w', _, .effect (hm.phase.trans hp) (hm.rest.trans hc) hh', hm.reply .., hi'⟩
  | invoke hp hc ha =>
    have hi' := hf.invoke hr hi hx hk hp hc ha
    exact ⟨_, _, .invoke (hm.phase.trans hp) (hm.rest.trans hc) ha, hm.phase_set _, hi'⟩
  | resume hp =>
    exact ⟨w, _, .resume (hm.phase.trans hp), hm.phase_set _, hf.resume hr hi hx hk hp⟩
  | finish hp hc =>
    have hi' := hf.finish hr hi hx hk hp hc
    exact ⟨w, _, .finish (hm.phase.trans hp) (hm.rest.trans hc), hm.phase_set _, hi'⟩
  | drop hp =>
    have hdrop : Move M t w y (M.abandon w t y.events) { y with phase := .dropped } [] :=
      .drop (by rwa [hm.phase])
    rw [hm.events] at hdrop
    exact ⟨_, _, hdrop, hm.phase_set _, hf.drop hr hi hx hk hp⟩
  | release hp =>
    have hrelease : Move M t w y (M.abandon w t y.events) { y with phase := .released } [] :=
      .release (hm.phase.trans hp)
    rw [hm.events] at hrelease
    exact ⟨_, _, hrelease, hm.phase_set _, hf.release hr hi hx hk hp⟩

theorem trace_fresh (hc : c₀.Initial) (hr : Steps M body c₀ c) (hn : c.tasks t = none) :
    ∀ p ∈ c.trace, p.1 ≠ t := by
  rintro ⟨t', e⟩ hp rfl
  have hcall : e ∈ callsOf t' c.trace :=
    List.mem_map.2 ⟨(t', e), List.mem_filter.2 ⟨hp, by simp⟩, rfl⟩
  rw [(pool_traced hc hr).1 t' hn] at hcall
  cases hcall

theorem Forgets.step (hf : Forgets M body keep c₀ I) (hc : c₀.Initial) (hr : Steps M body c₀ c)
    (hd : c.Shows keep d) (hi : I c d.world) (hs : Step M body c c') :
    ∃ d', Steps M body d d' ∧ c'.Shows keep d' ∧ I c' d'.world := by
  cases hs with
  | spawn t op hn =>
    have hi' := hf.spawn op hr hi hn
    have hold : c.keeps keep t = false := by
      rw [Pool.keeps, hn]
      rfl
    cases hk : keep op with
    | false => exact ⟨d, .refl, hd.put_hidden hk hold (by simp), hi'⟩
    | true =>
      refine ⟨_, .single (.spawn t op (hd.hidden t hold)), ?_, hi'⟩
      exact hd.put_kept hk ⟨rfl, rfl, rfl, rfl⟩ (.inr (trace_fresh hc hr hn)) (by simp)
  | @move x v x' tr _ t hx hm =>
    cases hk : keep x.op with
    | false =>
      have hk' : keep x'.op = false := by rw [hm.op_eq, hk]
      have hold : c.keeps keep t = false := by rw [Pool.keeps_some hx, hk]
      exact ⟨d, .refl, hd.put_hidden hk' hold hm.trace_self, hf.hidden hr hi hx hk hm⟩
    | true =>
      have hk' : keep x'.op = true := by rw [hm.op_eq, hk]
      have hold : c.keeps keep t = true := by rw [Pool.keeps_some hx, hk]
      obtain ⟨y, hy, hxy⟩ := hd.kept t x hx hk
      obtain ⟨w', y', hm', hxy', hi'⟩ := hf.move hr hi hx hk hxy hm
      exact ⟨_, .single (.move t hy hm'), hd.put_kept hk' hxy' (.inl hold) hm.trace_self, hi'⟩
  | @env v _ he =>
    obtain ⟨w', hw, hi'⟩ := hf.env hr hi he
    have hd' : Pool.Shows keep { c with world := v } { d with world := w' } :=
      ⟨hd.kept, hd.hidden, hd.trace⟩
    rcases hw with rfl | hw
    · exact ⟨d, .refl, hd', hi'⟩
    · exact ⟨_, .single (.env hw), hd', hi'⟩

/-- A run with the other tasks left out. -/
theorem Forgets.run (hf : Forgets M body keep c₀ I) (hc : c₀.Initial) (hi : I c₀ c₀.world)
    (hr : Steps M body c₀ c) :
    ∃ d, Steps M body c₀ d ∧ c.Shows keep d ∧ I c d.world := by
  induction hr with
  | refl =>
    refine ⟨c₀, .refl, ⟨?_, fun t _ => hc.1 t, ?_⟩, hi⟩
    · intro t x hx
      rw [hc.1 t] at hx
      cases hx
    · rw [hc.2]
      rfl
  | tail hr hs ih =>
    obtain ⟨d, hd, hshows, hi⟩ := ih
    obtain ⟨d', hd', hshows', hi'⟩ := hf.step hc hr hshows hi hs
    exact ⟨d', hd.trans hd', hshows', hi'⟩

end Interaction

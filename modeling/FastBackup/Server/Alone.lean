import FastBackup.Server.Lock

namespace FastBackup
open Interaction
set_option autoImplicit true

variable {St DB : Type} {P : Ports St DB}

/-- One operation by itself, from any state of the world. -/
abbrev Alone (P : Ports St DB) (t : Nat) := Under (machine P) t (fun _ w w' => w' = w)

theorem alone_cons {e : Call} {r : e.Reply} {k : e.Reply → Svc α} (hh : Handle P t w e r w')
    (hx : Exec (Alone P t) (h ++ [⟨⟨e, r⟩, w, w'⟩], w') (k r) evs q s') :
    Exec (Alone P t) (h, w) (.call e k) (⟨e, r⟩ :: evs) q s' := by
  have hs : Alone P t (h, w) e r (h ++ [⟨⟨e, r⟩, w, w'⟩], w') := ⟨w, rfl, hh, rfl⟩
  exact .cons hs hx

/-- Calls that leave the world alone can be made by any program that makes them. -/
theorem alone_of_runs {p q : Svc α} (hr : Runs p evs q)
    (hh : ∀ ev ∈ evs, Handle P t w ev.call ev.reply w) (h : Hist St DB) :
    ∃ h', Exec (Alone P t) (h, w) p evs q (h', w) := by
  induction hr generalizing h with
  | nil => exact ⟨h, .nil _ _⟩
  | @cons e evs q k r _ ih =>
    have hev := hh ⟨e, r⟩ (List.mem_cons_self ..)
    obtain ⟨h', hx⟩ := ih (fun ev hm => hh ev (List.mem_cons_of_mem _ hm)) (h ++ [⟨⟨e, r⟩, w, w⟩])
    exact ⟨h', alone_cons hev hx⟩

theorem undisturbed_alone (h : Hist St DB) (w w' : World St DB) (he : w' = w) :
    Undisturbed t h w w' := by
  subst he
  exact fun _ => ⟨rfl, rfl, fun _ _ => rfl⟩

/-- The first call of an operation by itself meets the world it was started in. -/
theorem alone_first {p q : Svc α} (hx : Exec (Alone P t) ([], w) p evs q (en :: h, w')) :
    en.pre = w := by
  obtain ⟨h', hh', hsplit⟩ := exec_entry hx
  obtain ⟨w₁, k, hx₁, hr, _⟩ := hsplit [] en h hh'.symm
  cases hx₁ with
  | nil => exact hr

/-- What an operation does alone it can do in a service that starts in the same world. -/
theorem service_runs {q : Request} {rest : Svc Outcome} {w : World St DB}
    (hx : Exec (Alone P t) ([], w) q.body evs rest (h, w')) (hl : w.lock = none)
    (hj : ∀ t, w.jobs t = none) (hd : ∀ ev ∈ evs, ∀ src dst, ev.call ≠ .decompress src dst) :
    ∃ c₀ c : Service St DB, c₀.Initial ∧ c₀.world = w ∧ Service.Steps P c₀ c ∧ c.world = w' ∧
      c.tasks t = some ⟨q, h, rest, .ready⟩ ∧ ∀ t', t' ≠ t → c.tasks t' = none := by
  let c₀ : Service St DB := ⟨w, fun _ => none, []⟩
  let c₁ : Service St DB := c₀.put t (.start Request.body q) w []
  have hs : Service.Step P c₀ c₁ := .spawn t q rfl
  have hc₁ : c₁.tasks t = some (.start Request.body q) := Pool.put_self ..
  have hinv : ∀ ev ∈ evs, ∀ w, World.invoke w t ev.call = (w : World St DB) := by
    intro ev hev w
    cases hc : ev.call with
    | decompress src dst => exact absurd hc (hd ev hev src dst)
    | _ => rfl
  obtain ⟨c, hr, hw, ht, ho, _⟩ := steps_of_exec hx hinv hc₁ rfl rfl rfl rfl
  refine ⟨c₀, c, ⟨⟨fun _ => rfl, rfl⟩, hl, hj⟩, rfl, .head hs hr, hw, ht, fun t' hn => ?_⟩
  rw [ho t' hn]
  exact Pool.put_of_ne _ _ _ _ hn

/-- So can it then make the call it awaits next. -/
theorem service_of_exec {q : Request} {k : e.Reply → Svc Outcome} {w : World St DB}
    (hx : Exec (Alone P t) ([], w) q.body evs (.call e k) (h, w')) (hl : w.lock = none)
    (hj : ∀ t, w.jobs t = none) (ha : e.awaits = true)
    (hd : ∀ ev ∈ evs, ∀ src dst, ev.call ≠ .decompress src dst) :
    ∃ c₀ c : Service St DB, c₀.Initial ∧ c₀.world = w ∧ Service.Steps P c₀ c ∧
      c.world = World.invoke w' t e ∧ (t, e) ∈ c.trace ∧
      c.tasks t = some ⟨q, h, .call e k, .waiting⟩ ∧ ∀ t', t' ≠ t → c.tasks t' = none := by
  obtain ⟨c₀, c, hc, hw₀, hr, hw, ht, ho⟩ := service_runs hx hl hj hd
  have hi : Service.Step P c _ := .move t ht (.invoke rfl rfl ha)
  refine ⟨c₀, _, hc, hw₀, hr.tail hi, ?_,
    List.mem_append_right _ (List.mem_singleton_self _), Pool.put_self .., ?_⟩
  · exact congrArg (World.invoke · t e) hw
  · intro t' hn
    rw [Pool.put_of_ne _ _ _ _ hn, ho t' hn]

end FastBackup

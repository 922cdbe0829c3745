import Mathlib.Data.List.Basic

namespace Paging
set_option autoImplicit true

/-- How a server cuts lists into pages. `pos` is where the page of a token starts, `count` how many
entries the page has, and `next` the token of the page after it. Pages may be short or empty. -/
structure Pager (α τ : Type) where
  pos : τ → Option Nat
  count : List α → Nat → Option τ → Nat
  next : List α → Nat → Option τ → Option τ
  continues {i : Nat} : token.elim (some 0) pos = some i → next l size token = some t →
    pos t = some (i + count l size token)
  ends {i : Nat} : token.elim (some 0) pos = some i → next l size token = none →
    l.length ≤ i + count l size token

variable {α τ : Type} (D : Pager α τ) (l : List α)

/-- Where the page of a token starts; the first page has none. -/
def Pager.start (token : Option τ) : Option Nat := token.elim (some 0) D.pos

def Pager.entries (size : Nat) (token : Option τ) : List α :=
  match D.start token with
  | some i => (l.drop i).take (D.count l size token)
  | none => []

/-- The first `n` pages from `token` on. -/
def Pager.pages (size : Nat) : Nat → Option τ → List (List α)
  | 0, _ => []
  | n + 1, token => D.entries l size token :: match D.next l size token with
    | some t => Pager.pages size n (some t)
    | none => []

/-- There is a page after the first `n` from `token` on. -/
def Pager.goesOn (size : Nat) : Nat → Option τ → Bool
  | 0, _ => true
  | n + 1, token => match D.next l size token with
    | some t => Pager.goesOn size n (some t)
    | none => false

/-- `items` is what a client reads that follows the tokens from `token` to the last page, with any
page sizes. -/
inductive Pager.Reads : Option τ → List α → Prop where
  | last (size : Nat) (hn : D.next l size token = none) :
      Pager.Reads token (D.entries l size token)
  | more (size : Nat) (hn : D.next l size token = some t) (hr : Pager.Reads (some t) items) :
      Pager.Reads token (D.entries l size token ++ items)

/-- The pages that a client reads which follows the tokens from `token` to the last page and asks
for the page sizes `sizes`. -/
inductive Pager.Walk : Option τ → List Nat → List (List α) → Prop where
  | last (hn : D.next l size token = none) : Pager.Walk token [size] [D.entries l size token]
  | more (hn : D.next l size token = some t) (hw : Pager.Walk (some t) sizes ps) :
      Pager.Walk token (size :: sizes) (D.entries l size token :: ps)

variable {D l}

theorem Pager.Walk.reads (hw : D.Walk l token sizes ps) : D.Reads l token ps.flatten := by
  induction hw with
  | last hn =>
    rw [List.flatten_singleton]
    exact .last _ hn
  | more hn _ ih =>
    rw [List.flatten_cons]
    exact .more _ hn ih

theorem Pager.start_next (hs : D.start token = some i) (hn : D.next l size token = some t) :
    D.start (some t) = some (i + D.count l size token) :=
  D.continues hs hn

theorem Pager.entries_of_start (hs : D.start token = some i) :
    D.entries l size token = (l.drop i).take (D.count l size token) := by
  rw [Pager.entries, hs]

theorem Pager.entries_append (size : Nat) (hs : D.start token = some i) :
    D.entries l size token ++ l.drop (i + D.count l size token) = l.drop i := by
  rw [D.entries_of_start hs, ← List.drop_drop, List.take_append_drop]

theorem Pager.entries_last (hs : D.start token = some i) (hn : D.next l size token = none) :
    D.entries l size token = l.drop i := by
  have hl : l.length ≤ i + D.count l size token := D.ends hs hn
  rw [← D.entries_append size hs, List.drop_eq_nil_of_le hl, List.append_nil]

theorem Pager.mem_of_entries (hm : a ∈ D.entries l size token) : a ∈ l := by
  rw [Pager.entries] at hm
  split at hm
  · exact List.mem_of_mem_drop (List.mem_of_mem_take hm)
  · cases hm

/-- A client that follows the tokens reads all entries, each once and in order. -/
theorem Pager.Reads.eq_drop (hr : D.Reads l token items) (hs : D.start token = some i) :
    items = l.drop i := by
  induction hr generalizing i with
  | last size hn => exact D.entries_last hs hn
  | more size hn _ ih => rw [ih (D.start_next hs hn), D.entries_append size hs]

/-- The first pages are a first part of the list. -/
theorem Pager.pages_prefix (l : List α) (size n : Nat) (hs : D.start token = some i) :
    (D.pages l size n token).flatten <+: l.drop i := by
  induction n generalizing token i with
  | zero => exact List.nil_prefix
  | succ n ih =>
    rw [← D.entries_append size hs, Pager.pages, List.flatten_cons]
    apply (List.prefix_append_right_inj _).2
    cases hn : D.next l size token with
    | none => exact List.nil_prefix
    | some t => exact ih (D.start_next hs hn)

/-- Without a further page, they are the whole list. -/
theorem Pager.pages_all (hs : D.start token = some i) (hg : D.goesOn l size n token = false) :
    (D.pages l size n token).flatten = l.drop i := by
  induction n generalizing token i with
  | zero => cases hg
  | succ n ih =>
    rw [Pager.pages, List.flatten_cons]
    rw [Pager.goesOn] at hg
    cases hn : D.next l size token with
    | none => simpa using D.entries_last hs hn
    | some t =>
      rw [hn] at hg
      simp only
      rw [ih (D.start_next hs hn) hg, D.entries_append size hs]

theorem Pager.goesOn_false_of_le (hg : D.goesOn l size n token = false) (hn : n ≤ m) :
    D.goesOn l size m token = false := by
  induction n generalizing token m with
  | zero => cases hg
  | succ n ih =>
    obtain ⟨m, rfl⟩ := Nat.exists_eq_add_of_le' (Nat.lt_of_lt_of_le n.succ_pos hn)
    rw [Pager.goesOn] at hg ⊢
    cases hnext : D.next l size token with
    | none => rfl
    | some t =>
      rw [hnext] at hg
      exact ih hg (Nat.le_of_succ_le_succ hn)

end Paging

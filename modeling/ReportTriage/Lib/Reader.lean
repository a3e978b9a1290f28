import Mathlib.Data.List.Basic

/-!
# Reading one item after the other

A reader takes one item from the front of an input and leaves the rest. Reading on until nothing
is left is the inverse of writing the items one after the other, if the reader is the inverse of
writing one of them.

## Main definitions

* `Reader.all` — read on to the end.
* `Reader.Undoes`, `Reader.all_eq_some_iff` — the inverse of one item, and of all of them.
-/

namespace Reader

variable {α β : Type*}

/-- Read items until nothing is left, `n` of them at most. -/
def all (next : List β → Option (α × List β)) : ℕ → List β → Option (List α)
  | _, [] => some []
  | 0, _ :: _ => none
  | n + 1, b :: t => (next (b :: t)).bind fun p => (all next n p.2).map (p.1 :: ·)

/-- The reader takes what is written for an item, and nothing else. -/
structure Undoes (next : List β → Option (α × List β)) (write : α → List β) : Prop where
  read : ∀ a rest, next (write a ++ rest) = some (a, rest)
  written : ∀ t a rest, next t = some (a, rest) → t = write a ++ rest
  nonempty : ∀ a, write a ≠ []

variable {next : List β → Option (α × List β)} {write : α → List β} {t : List β} {l : List α}

theorem all_write (h : Undoes next write) (l : List α) (n : ℕ) (hn : l.length ≤ n) :
    all next n (l.flatMap write) = some l := by
  induction l generalizing n with
  | nil => cases n <;> rfl
  | cons a l ih =>
    obtain ⟨m, rfl⟩ : ∃ m, n = m + 1 := ⟨n - 1, by simp at hn; omega⟩
    have hread := h.read a (l.flatMap write)
    rw [List.flatMap_cons]
    obtain ⟨b, w, hw⟩ := List.exists_cons_of_ne_nil (h.nonempty a)
    rw [hw, List.cons_append] at hread ⊢
    rw [all, hread, Option.bind_some, ih m (by simpa using hn), Option.map_some]

theorem write_of_all (h : Undoes next write) {n : ℕ} (hall : all next n t = some l) :
    t = l.flatMap write := by
  induction n generalizing t l with
  | zero =>
    cases t <;> cases hall
    rfl
  | succ n ih =>
    cases t with
    | nil =>
      cases hall
      rfl
    | cons b t =>
      rw [all] at hall
      obtain ⟨⟨a, rest⟩, hnext, hall⟩ := Option.bind_eq_some_iff.mp hall
      obtain ⟨l', hl', rfl⟩ := Option.map_eq_some_iff.mp hall
      have hrest : rest = l'.flatMap write := ih hl'
      rw [h.written _ a rest hnext, hrest, List.flatMap_cons]

/-- **Reading to the end undoes writing.** -/
theorem all_eq_some_iff (h : Undoes next write) : all next t.length t = some l ↔
    t = l.flatMap write := by
  refine ⟨write_of_all h, ?_⟩
  rintro rfl
  refine all_write h l _ ?_
  induction l with
  | nil => simp
  | cons a l ih =>
    have := List.length_pos_iff.mpr (h.nonempty a)
    rw [List.flatMap_cons, List.length_append, List.length_cons]
    omega

end Reader

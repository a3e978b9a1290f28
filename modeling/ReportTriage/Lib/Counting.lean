import Mathlib.Data.List.Induction
import Mathlib.Data.List.Nodup
import Mathlib.Data.List.Perm.Subperm
import ReportTriage.Lib.Slots

/-!
# Counting numbered parties

A bound on how many parties there are of a kind, from their numbers or from something each of
them belongs to.

## Main definitions

* `Slots.numbers` — the numbers of the parties that a predicate picks.
* `Slots.length_le_countP` — distinct numbers count distinct parties.
* `Slots.countP_le_mul_length` — at most `n` parties to each key.
-/

namespace Slots

variable {α : Type*} {l : List α} {i : ℕ} {x : α} {p : α → Bool}

/-- The numbers of the parties that a predicate picks. -/
def numbers (p : α → Bool) (l : List α) : List ℕ :=
  (List.range l.length).filter fun i => (l[i]?).any p

theorem mem_numbers : i ∈ numbers p l ↔ ∃ x, l[i]? = some x ∧ p x = true := by
  rw [numbers, List.mem_filter, List.mem_range, Option.any_eq_true]
  refine and_iff_right_of_imp ?_
  rintro ⟨x, hx, -⟩
  exact (List.getElem?_eq_some_iff.mp hx).1

theorem nodup_numbers (p : α → Bool) (l : List α) : (numbers p l).Nodup :=
  List.nodup_range.filter _

theorem length_numbers (p : α → Bool) (l : List α) : (numbers p l).length = l.countP p := by
  rw [numbers, ← List.countP_eq_length_filter]
  induction l using List.reverseRecOn with
  | nil => rfl
  | append_singleton l x ih =>
    rw [List.length_append, List.length_singleton, List.range_succ, List.countP_append,
      List.countP_append, ← ih]
    congr 1
    · refine List.countP_congr fun i hi => ?_
      rw [List.getElem?_append_left (List.mem_range.mp hi)]
    · simp [List.countP_singleton]

/-- Distinct numbers of parties that a predicate picks are no more than those it picks. -/
theorem length_le_countP {is : List ℕ} (hnodup : is.Nodup)
    (h : ∀ i ∈ is, ∃ x, l[i]? = some x ∧ p x = true) : is.length ≤ l.countP p := by
  rw [← length_numbers]
  exact (List.subperm_of_subset hnodup fun i hi => mem_numbers.mpr (h i hi)).length_le

/-- Parties that each belong to one of some keys, at most `n` to a key. -/
theorem countP_le_mul_length {β : Type*} [DecidableEq β] {f : α → β} {n : ℕ} {keys : List β}
    (hmem : ∀ x ∈ l, p x = true → f x ∈ keys)
    (hle : ∀ key ∈ keys, l.countP (fun x => p x && f x = key) ≤ n) :
    l.countP p ≤ n * keys.length := by
  induction keys generalizing p with
  | nil =>
    have hnone : l.countP p = 0 := List.countP_eq_zero.mpr fun x hx hp => by
      cases hmem x hx hp
    omega
  | cons key keys ih =>
    have hsplit : l.countP p = l.countP (fun x => p x && f x = key) +
        l.countP (fun x => p x && !decide (f x = key)) := by
      clear hmem hle ih
      induction l with
      | nil => rfl
      | cons x l ih =>
        simp only [List.countP_cons, ih]
        by_cases hp : p x <;> by_cases hx : f x = key <;> simp [hp, hx] <;> omega
    have hfirst := hle key List.mem_cons_self
    have hrest := ih (p := fun x => p x && !decide (f x = key)) (fun x hx hp => ?_)
      fun key' hkey' => ?_
    · rw [List.length_cons, Nat.mul_succ]
      omega
    · simp only [Bool.and_eq_true, Bool.not_eq_true', decide_eq_false_iff_not] at hp
      exact (List.mem_cons.mp (hmem x hx hp.1)).resolve_left hp.2
    · refine Nat.le_trans (List.countP_mono_left fun x _ hx => ?_)
        (hle key' (List.mem_cons_of_mem key hkey'))
      simp only [Bool.and_eq_true] at hx ⊢
      exact ⟨hx.1.1, hx.2⟩

end Slots

import Mathlib.Data.List.Basic
import Mathlib.Order.Lattice
import Mathlib.Tactic.Common
import Mathlib.Tactic.SplitIfs

/-!
# Entries in the order of their keys

A store of objects need not keep their entries in the order they came in. Here it sorts them by
the rank of their keys, and of several entries with one key it keeps the last. No two keys have
the same rank.

## Main definitions

* `KeyOrder.sort`, `KeyOrder.Sorted` — the entries as they are kept.
* `KeyOrder.sort_sort` — sorting what is sorted changes nothing.
* `KeyOrder.lookup_sort` — entries with different keys are found as before.
-/

namespace KeyOrder

variable {κ ρ α β : Type*} [LinearOrder ρ] {rank : κ → ρ}

def Sorted (rank : κ → ρ) (entries : List (κ × α)) : Prop :=
  entries.Pairwise fun e e' => rank e.1 < rank e'.1

variable [DecidableEq κ]

/-- Put an entry where its key belongs, unless there is one with that key. -/
def insert (rank : κ → ρ) (k : κ) (v : α) : List (κ × α) → List (κ × α)
  | [] => [(k, v)]
  | (k', v') :: entries =>
    if rank k < rank k' then (k, v) :: (k', v') :: entries
    else if k = k' then (k', v') :: entries
    else (k', v') :: insert rank k v entries

def sort (rank : κ → ρ) : List (κ × α) → List (κ × α)
  | [] => []
  | (k, v) :: entries => insert rank k v (sort rank entries)

/-! ## The result is sorted -/

theorem mem_insert {k : κ} {v : α} {e : κ × α} {entries : List (κ × α)}
    (h : e ∈ insert rank k v entries) : e = (k, v) ∨ e ∈ entries := by
  induction entries with
  | nil => exact .inl (List.mem_singleton.mp h)
  | cons e' entries ih =>
    obtain ⟨k', v'⟩ := e'
    rw [insert] at h
    split_ifs at h
    · exact List.mem_cons.mp h
    · exact .inr h
    · rcases List.mem_cons.mp h with rfl | h
      · exact .inr List.mem_cons_self
      · exact (ih h).imp_right (List.mem_cons_of_mem _)

theorem sorted_insert (hrank : Function.Injective rank) {k : κ} {v : α} {entries : List (κ × α)}
    (h : Sorted rank entries) : Sorted rank (insert rank k v entries) := by
  induction entries with
  | nil => exact List.pairwise_singleton ..
  | cons e entries ih =>
    obtain ⟨k', v'⟩ := e
    obtain ⟨hhead, htail⟩ := List.pairwise_cons.mp h
    rw [insert]
    split_ifs with hlt heq
    · refine List.pairwise_cons.mpr ⟨fun e he => ?_, h⟩
      rcases List.mem_cons.mp he with rfl | he
      · exact hlt
      · exact lt_trans hlt (hhead e he)
    · exact h
    · refine List.pairwise_cons.mpr ⟨fun e he => ?_, ih htail⟩
      rcases mem_insert he with rfl | he
      · exact lt_of_le_of_ne (not_lt.mp hlt) fun hsame => heq (hrank hsame).symm
      · exact hhead e he

theorem sorted_sort (hrank : Function.Injective rank) (entries : List (κ × α)) :
    Sorted rank (sort rank entries) := by
  induction entries with
  | nil => exact .nil
  | cons e entries ih => exact sorted_insert hrank ih

theorem sort_of_sorted {entries : List (κ × α)} (h : Sorted rank entries) :
    sort rank entries = entries := by
  induction entries with
  | nil => rfl
  | cons e entries ih =>
    obtain ⟨hhead, htail⟩ := List.pairwise_cons.mp h
    rw [sort, ih htail]
    cases entries with
    | nil => rfl
    | cons e' entries => exact if_pos (hhead e' List.mem_cons_self)

theorem sort_sort (hrank : Function.Injective rank) (entries : List (κ × α)) :
    sort rank (sort rank entries) = sort rank entries :=
  sort_of_sorted (sorted_sort hrank entries)

/-! ## What is kept -/

/-- Only the keys decide. -/
theorem sort_map (f : α → β) (entries : List (κ × α)) :
    sort rank (entries.map (Prod.map id f)) = (sort rank entries).map (Prod.map id f) := by
  have hinsert : ∀ (k : κ) (v : α) (entries : List (κ × α)),
      insert rank k (f v) (entries.map (Prod.map id f)) =
        (insert rank k v entries).map (Prod.map id f) := by
    intro k v entries
    induction entries with
    | nil => rfl
    | cons e entries ih =>
      obtain ⟨k', v'⟩ := e
      rw [List.map_cons, Prod.map_apply, id, insert, insert, ih]
      split_ifs <;> rfl
  induction entries with
  | nil => rfl
  | cons e entries ih =>
    rw [List.map_cons, Prod.map_apply, id, sort, ih, hinsert]
    rfl

theorem lookup_insert {k : κ} {v : α} {entries : List (κ × α)} (h : ∀ e ∈ entries, e.1 ≠ k)
    (key : κ) : (insert rank k v entries).lookup key = ((k, v) :: entries).lookup key := by
  induction entries with
  | nil => rfl
  | cons e entries ih =>
    obtain ⟨k', v'⟩ := e
    obtain ⟨hne, htail⟩ := List.forall_mem_cons.mp h
    rw [insert]
    split_ifs with hlt heq
    · rfl
    · exact absurd heq.symm hne
    · rw [List.lookup_cons, ih htail, List.lookup_cons, List.lookup_cons, List.lookup_cons]
      by_cases hk : key = k
      · subst hk
        rw [beq_self_eq_true, beq_false_of_ne hne.symm]
      · rw [beq_false_of_ne hk]

theorem mem_sort {e : κ × α} {entries : List (κ × α)} (h : e ∈ sort rank entries) :
    e ∈ entries := by
  induction entries with
  | nil => exact h
  | cons e' entries ih =>
    rcases mem_insert h with rfl | h
    · exact List.mem_cons_self
    · exact List.mem_cons_of_mem _ (ih h)

theorem lookup_sort {entries : List (κ × α)} (h : (entries.map Prod.fst).Nodup) (key : κ) :
    (sort rank entries).lookup key = entries.lookup key := by
  induction entries with
  | nil => rfl
  | cons e entries ih =>
    obtain ⟨k, v⟩ := e
    obtain ⟨hk, htail⟩ := List.nodup_cons.mp h
    rw [sort, lookup_insert, List.lookup_cons, List.lookup_cons, ih htail]
    rintro e he rfl
    exact hk (List.mem_map.mpr ⟨e, mem_sort he, rfl⟩)

end KeyOrder

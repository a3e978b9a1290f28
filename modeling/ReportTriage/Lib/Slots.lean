import Mathlib.Data.List.Basic
import Mathlib.Tactic.Common

/-!
# Numbered parties

A population is a list in which a party is known by its position. Parties are appended and
changed in place, never removed, so a number means the same party in every later state. The
lemmas say who is at position `j` after a change, in terms of who was there before.
-/

namespace Slots

variable {α : Type*} {l : List α} {i j : ℕ} {x y : α} {f : α → α}

theorem append_cases (h : (l ++ [x])[j]? = some y) :
    l[j]? = some y ∨ j = l.length ∧ y = x := by
  rcases Nat.lt_trichotomy j l.length with hlt | heq | hgt
  · rw [List.getElem?_append_left hlt] at h
    exact .inl h
  · subst heq
    simp only [List.getElem?_concat_length, Option.some.injEq] at h
    exact .inr ⟨rfl, h.symm⟩
  · rw [List.getElem?_eq_none (by simp; omega)] at h
    cases h

theorem append_of_some (h : l[j]? = some y) : (l ++ [x])[j]? = some y := by
  rw [List.getElem?_append_left (List.getElem?_eq_some_iff.mp h).1]
  exact h

theorem modify_cases (h : (l.modify i f)[j]? = some y) :
    (j = i ∧ ∃ x, l[i]? = some x ∧ y = f x) ∨ (j ≠ i ∧ l[j]? = some y) := by
  rw [List.getElem?_modify] at h
  by_cases hij : i = j
  · subst hij
    obtain ⟨x, hx, rfl⟩ := Option.map_eq_some_iff.mp h
    exact .inl ⟨rfl, x, hx, by simp⟩
  · refine .inr ⟨Ne.symm hij, ?_⟩
    simpa [hij] using h

theorem modify_self (h : l[i]? = some x) : (l.modify i f)[i]? = some (f x) := by
  simp [h]

theorem modify_of_ne (hne : j ≠ i) : (l.modify i f)[j]? = l[j]? := by
  rw [List.getElem?_modify]
  simp [Ne.symm hne]

theorem modify_concat (l : List α) (x : α) (f : α → α) :
    (l ++ [x]).modify l.length f = l ++ [f x] := by
  induction l with
  | nil => rfl
  | cons y l ih => exact congrArg (y :: ·) ih

theorem set_cases (h : (l.set i x)[j]? = some y) :
    (j = i ∧ y = x) ∨ (j ≠ i ∧ l[j]? = some y) := by
  by_cases hij : i = j
  · subst hij
    rw [List.getElem?_set_self (by simpa using (List.getElem?_eq_some_iff.mp h).1)] at h
    exact .inl ⟨rfl, (Option.some.inj h).symm⟩
  · rw [List.getElem?_set_ne hij] at h
    exact .inr ⟨Ne.symm hij, h⟩

theorem set_self (h : l[i]? = some y) : (l.set i x)[i]? = some x :=
  List.getElem?_set_self (List.getElem?_eq_some_iff.mp h).1

theorem any_drop_iff {p : α → Bool} :
    (l.drop (i + 1)).any p = true ↔ ∃ j x, i < j ∧ l[j]? = some x ∧ p x = true := by
  rw [List.any_eq_true]
  constructor
  · rintro ⟨x, hx, hp⟩
    obtain ⟨k, hk⟩ := List.getElem?_of_mem hx
    rw [List.getElem?_drop] at hk
    exact ⟨i + 1 + k, x, by omega, hk, hp⟩
  · rintro ⟨j, x, hlt, hj, hp⟩
    refine ⟨x, List.mem_of_getElem? (i := j - (i + 1)) ?_, hp⟩
    rw [List.getElem?_drop, ← hj]
    congr 1
    omega

/-- A list whose elements exclude each other pairwise, although no two of them can, has at
most one. -/
theorem length_le_one_of_pairwise {R : α → α → Prop} (h : l.Pairwise R)
    (hnone : ∀ a ∈ l, ∀ b ∈ l, ¬ R a b) : l.length ≤ 1 := by
  match l with
  | [] | [_] => simp
  | a :: b :: rest =>
    exact absurd ((List.pairwise_cons.mp h).1 b (by simp)) (hnone a (by simp) b (by simp))

theorem eq_singleton_of_mem (hx : x ∈ l) (hle : l.length ≤ 1) : l = [x] := by
  match l with
  | [] => cases hx
  | [y] => rw [List.mem_singleton.mp hx]
  | _ :: _ :: _ => simp at hle

/-- Changing one party changes a count by what that party counts for. -/
theorem countP_modify {p : α → Bool} (h : l[i]? = some x) :
    (l.modify i f).countP p + (if p x then 1 else 0) = l.countP p + if p (f x) then 1 else 0 := by
  induction l generalizing i with
  | nil => cases h
  | cons y l ih =>
    cases i with
    | zero =>
      cases h
      simp only [List.modify_zero_cons, List.countP_cons]
      omega
    | succ i =>
      have := ih (i := i) h
      simp only [List.modify_succ_cons, List.countP_cons]
      omega

theorem countP_lt_modify {p : α → Bool} (h : l[i]? = some x) (hx : ¬ p x = true)
    (hf : p (f x) = true) : l.countP p < (l.modify i f).countP p := by
  have hcount := countP_modify (f := f) (p := p) h
  rw [if_neg hx, if_pos hf] at hcount
  omega

/-- Changing the elements a filter drops does not show. -/
theorem filter_map_eq {p : α → Bool}
    (h : ∀ x ∈ l, p (f x) = p x ∧ (p x = true → f x = x)) : (l.map f).filter p = l.filter p := by
  induction l with
  | nil => rfl
  | cons x l ih =>
    obtain ⟨⟨hp, hf⟩, hl⟩ := List.forall_mem_cons.mp h
    simp only [List.map_cons, List.filter_cons, hp, ih hl]
    split
    · rename_i hx
      rw [hf hx]
    · rfl

end Slots

import Mathlib.Data.List.Infix
import Mathlib.Data.List.Perm.Subperm

/-!
# Search in joined texts

Texts are joined with a separator and searched as one. A needle without the separator is found in
the joint text when it is found in one of the parts; a needle with one separator in it is also
found when it straddles the border of two parts that were put next to each other.

## Main definitions

* `Joined.Straddles` — the needle ends one part and begins the next.
* `Joined.infix_intercalate_iff` — where a needle with at most one separator is found.
* `Joined.exists_perm_adjacent_iff` — which parts some order puts next to each other.
-/

namespace Joined

variable {α : Type*} {n a b q y : List α} {sep : α} {l : List (List α)}

/-- The needle is a tail of `x`, the separator and a head of `y`. -/
def Straddles (sep : α) (n x y : List α) : Prop :=
  ∃ p q, n = p ++ sep :: q ∧ p <:+ x ∧ q <+: y

theorem infix_cons_iff : n <:+: sep :: b ↔ n <:+: b ∨ Straddles sep n [] b := by
  rw [List.infix_cons_iff, List.prefix_cons_iff]
  constructor
  · rintro ((rfl | ⟨q, rfl, hq⟩) | h)
    · exact .inl List.nil_infix
    · exact .inr ⟨[], q, rfl, List.suffix_rfl, hq⟩
    · exact .inl h
  · rintro (h | ⟨p, q, rfl, hp, hq⟩)
    · exact .inr h
    · rw [List.suffix_nil.mp hp]
      exact .inl (.inr ⟨q, rfl, hq⟩)

/-- **Two texts and a separator.** -/
theorem infix_append_cons_iff :
    n <:+: a ++ sep :: b ↔ n <:+: a ∨ n <:+: b ∨ Straddles sep n a b := by
  rw [List.infix_append_iff, infix_cons_iff]
  constructor
  · rintro (h | (h | ⟨p, q, rfl, hp, hq⟩) | ⟨p, q, rfl, hp, hq⟩)
    · exact .inl h
    · exact .inr (.inl h)
    · rw [List.suffix_nil.mp hp]
      exact .inr (.inr ⟨[], q, rfl, List.nil_suffix, hq⟩)
    · rcases List.prefix_cons_iff.mp hq with rfl | ⟨q', rfl, hq'⟩
      · exact .inl (by simpa using hp.isInfix)
      · exact .inr (.inr ⟨p, q', rfl, hp, hq'⟩)
  · rintro (h | h | ⟨p, q, rfl, hp, hq⟩)
    · exact .inl h
    · exact .inr (.inl (.inl h))
    · exact .inr (.inr ⟨p, sep :: q, rfl, hp, List.cons_prefix_cons.mpr ⟨rfl, hq⟩⟩)

/-- A text without the separator that begins a joint text begins its first part. -/
theorem prefix_intercalate_iff (hq : sep ∉ q) :
    q <+: [sep].intercalate (y :: l) ↔ q <+: y := by
  cases l with
  | nil => rw [List.intercalate_singleton]
  | cons z l =>
    rw [List.intercalate_cons_cons, List.append_assoc, List.singleton_append]
    refine ⟨?_, fun h => h.trans (List.prefix_append ..)⟩
    intro h
    rcases List.prefix_or_prefix_of_prefix h (List.prefix_append y _) with hy | ⟨t, rfl⟩
    · exact hy
    · rcases List.prefix_cons_iff.mp ((List.prefix_append_right_inj y).mp h) with rfl | ⟨t, rfl, -⟩
      · simp
      · simp at hq

section
variable [DecidableEq α]

/-- **A needle in a joint text**, if the separator occurs in it once at most: it is in one of the
parts, or straddles two neighbours. -/
theorem infix_intercalate_iff (hn : n.count sep ≤ 1) :
    n <:+: [sep].intercalate (a :: l) ↔ (∃ x ∈ a :: l, n <:+: x) ∨
      ∃ x y, [x, y] <:+: a :: l ∧ Straddles sep n x y := by
  induction l generalizing a with
  | nil => simp [List.intercalate_singleton, List.infix_cons_iff, List.prefix_cons_iff]
  | cons b l ih =>
    rw [List.intercalate_cons_cons, List.append_assoc, List.singleton_append,
      infix_append_cons_iff, ih]
    have hstraddles : Straddles sep n a ([sep].intercalate (b :: l)) ↔ Straddles sep n a b := by
      refine exists₂_congr fun p q => and_congr_right fun heq => and_congr_right fun _ => ?_
      refine prefix_intercalate_iff fun hq => ?_
      have := List.count_pos_iff.mpr hq
      subst heq
      simp only [List.count_append, List.count_cons_self] at hn
      omega
    rw [hstraddles]
    constructor
    · rintro (h | (⟨x, hx, h⟩ | ⟨x, y, hxy, h⟩) | h)
      · exact .inl ⟨a, List.mem_cons_self, h⟩
      · exact .inl ⟨x, List.mem_cons_of_mem _ hx, h⟩
      · exact .inr ⟨x, y, List.infix_cons hxy, h⟩
      · exact .inr ⟨a, b, List.IsPrefix.isInfix ⟨l, rfl⟩, h⟩
    · rintro (⟨x, hx, h⟩ | ⟨x, y, hxy, h⟩)
      · rcases List.mem_cons.mp hx with rfl | hx
        · exact .inl h
        · exact .inr (.inl (.inl ⟨x, hx, h⟩))
      · rcases List.infix_cons_iff.mp hxy with hhead | hrest
        · obtain ⟨t, ht⟩ := hhead
          cases ht
          exact .inr (.inr h)
        · exact .inr (.inl (.inr ⟨x, y, hrest, h⟩))

/-- The same when the first part is followed by a separator even if it is the only one, for a needle
that does not end with the separator. -/
theorem infix_append_intercalate_iff (hn : n.count sep ≤ 1) (hlast : n.getLast?.any (· ≠ sep)) :
    n <:+: a ++ sep :: [sep].intercalate l ↔ (∃ x ∈ a :: l, n <:+: x) ∨
      ∃ x y, [x, y] <:+: a :: l ∧ Straddles sep n x y := by
  cases l with
  | nil =>
    have hnone : ∀ x y : List α, ¬ [x, y] <:+: [a] := fun x y h => by simpa using h.length_le
    simp only [List.intercalate_nil, infix_append_cons_iff, List.infix_nil, List.mem_singleton,
      exists_eq_left, hnone, false_and, exists_false, or_false]
    refine ⟨?_, .inl⟩
    rintro (h | rfl | ⟨p, q, rfl, -, hq⟩)
    · exact h
    · simp at hlast
    · simp [List.prefix_nil.mp hq] at hlast
  | cons b l =>
    rw [← infix_intercalate_iff hn, List.intercalate_cons_cons, List.append_assoc,
      List.singleton_append]

end

/-- Neighbours among images are the images of neighbours. -/
theorem adjacent_map_iff {β γ : Type*} {f : β → γ} {x y : γ} {l : List β} :
    [x, y] <:+: l.map f ↔ ∃ a b, [a, b] <:+: l ∧ f a = x ∧ f b = y := by
  constructor
  · intro h
    obtain ⟨l', hl', heq⟩ := List.infix_map_iff.mp h
    have hlength : l'.length = 2 := by simpa using (congrArg List.length heq).symm
    obtain ⟨a, b, rfl⟩ := List.length_eq_two.mp hlength
    simp only [List.map_cons, List.map_nil, List.cons.injEq, and_true] at heq
    exact ⟨a, b, hl', heq.1.symm, heq.2.symm⟩
  · rintro ⟨a, b, hab, rfl, rfl⟩
    exact hab.map f

/-- **Neighbours in some order.** Any two different entries of a list can be neighbours. -/
theorem exists_perm_adjacent_iff {β : Type*} {e e' : β} {l : List β} :
    (∃ l', l'.Perm l ∧ [e, e'] <:+: l') ↔ [e, e'].Subperm l := by
  constructor
  · rintro ⟨l', hperm, h⟩
    exact h.sublist.subperm.trans hperm.subperm
  · rintro ⟨l₂, hl₂, hsub⟩
    obtain ⟨t, ht⟩ := hsub.exists_perm_append
    exact ⟨[e, e'] ++ t, (hl₂.symm.append_right t).trans ht.symm, List.IsPrefix.isInfix ⟨t, rfl⟩⟩

/-- Any entry of a list can be the first. -/
theorem exists_perm_cons_iff {β : Type*} {e : β} {l : List β} :
    (∃ l', (e :: l').Perm l) ↔ e ∈ l := by
  constructor
  · rintro ⟨l', hperm⟩
    exact hperm.subset List.mem_cons_self
  · intro he
    obtain ⟨s, t, rfl⟩ := List.append_of_mem he
    exact ⟨s ++ t, List.perm_middle.symm⟩

end Joined

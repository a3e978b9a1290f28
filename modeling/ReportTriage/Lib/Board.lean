import Mathlib.Logic.Function.Basic
import Mathlib.Tactic.SplitIfs
import ReportTriage.Lib.Machine

/-!
# Boards of cards that climb

A board holds at most one card for each key. What a card says is fixed when it is posted. From
then on anybody may change its mark, and it climbs, one rung at a time and never down: the mark
is what is said of a job, the rung is what has been done. The rules say which marks may stand on
which rung; a mark that may stand on a rung may stand on every higher one.

A board is for looking at a system: the rung of a card is how many of its milestones have been
passed, and tells which if they are passed in order.

## Main definitions

* `Board.Rules`, `Board.machine` — the rules, and what may be done to a board.
* `Board.legal_of_reachable`, `Board.kept_of_path` — every card keeps to the rules, and what
  becomes of it.
* `Board.rung`, `Board.rung_le_of_step` — cards climb one rung at a time.
* `Board.passed_iff` — what the number of milestones passed says.
-/

/-- At most one card for each key, which says `content`, is marked, and stands on a rung. -/
structure Board.Card (γ σ : Type*) where
  content : γ
  mark : σ
  rung : ℕ

def Board (κ γ σ : Type*) : Type _ := κ → Option (Board.Card γ σ)

namespace Board

/-- Which marks may stand on which rung of a ladder. -/
structure Rules (σ : Type*) where
  height : ℕ
  initial : σ
  allows : σ → ℕ → Bool
  allows_initial : allows initial 0 = true
  allows_mono : ∀ {mark : σ} {m n : ℕ}, m ≤ n → allows mark m = true → allows mark n = true

inductive Action (κ γ σ : Type*)
  | post (k : κ) (content : γ)
  | mark (k : κ) (mark : σ)
  | climb (k : κ)

section
variable {κ γ σ : Type*}

def empty : Board κ γ σ := fun _ => none

/-- The rung of the card of a key, if it has one. -/
def rung (b : Board κ γ σ) (k : κ) : ℕ := (b k).elim 0 Card.rung

/-- The card keeps to the rules. -/
def Card.Legal (R : Rules σ) (card : Card γ σ) : Prop :=
  R.allows card.mark card.rung = true ∧ card.rung ≤ R.height

/-- What may become of a card. -/
def Card.Becomes (card card' : Card γ σ) : Prop :=
  card'.content = card.content ∧ card.rung ≤ card'.rung

variable [DecidableEq κ] (R : Rules σ)

def put (b : Board κ γ σ) (k : κ) (card : Card γ σ) : Board κ γ σ :=
  Function.update b k (some card)

def step (b : Board κ γ σ) : Action κ γ σ → Option (Board κ γ σ)
  | .post k content => if (b k).isNone then some (b.put k ⟨content, R.initial, 0⟩) else none
  | .mark k mark => (b k).bind fun card =>
    if R.allows mark card.rung then some (b.put k { card with mark := mark }) else none
  | .climb k => (b k).bind fun card =>
    if card.rung < R.height then some (b.put k { card with rung := card.rung + 1 }) else none

/-- A board nobody has posted on yet. -/
def machine : Machine (Board κ γ σ) (Action κ γ σ) where
  init b := b = empty
  step := step R

variable {R} {b b' : Board κ γ σ} {a : Action κ γ σ} {k k' : κ} {card card' : Card γ σ}

@[simp] theorem put_self : b.put k card k = some card := Function.update_self ..

theorem put_of_ne (h : k' ≠ k) : b.put k card k' = b k' := Function.update_of_ne h ..

/-- A board that differs from another in one card. -/
theorem eq_put (hk : b' k = some card) (h : ∀ k', k' ≠ k → b' k' = b k') :
    b' = b.put k card := by
  funext k'
  by_cases hk' : k' = k
  · rw [hk', hk, put_self]
  · rw [h k' hk', put_of_ne hk']

/-! ## One step -/

theorem step_post {content : γ} (h : b k = none) :
    step R b (.post k content) = some (b.put k ⟨content, R.initial, 0⟩) := by
  rw [step, h]
  rfl

theorem step_mark {mark : σ} (h : b k = some card) (hallows : R.allows mark card.rung = true) :
    step R b (.mark k mark) = some (b.put k { card with mark := mark }) := by
  rw [step, h, Option.bind_some, if_pos hallows]

theorem step_climb (h : b k = some card) (hlt : card.rung < R.height) :
    step R b (.climb k) = some (b.put k { card with rung := card.rung + 1 }) := by
  rw [step, h, Option.bind_some, if_pos hlt]

/-- **Everything a step can do**: it puts up one card, new or in place of another. -/
theorem step_cases (h : step R b a = some b') : ∃ k card', b' = b.put k card' ∧
    ((b k = none ∧ card'.mark = R.initial ∧ card'.rung = 0) ∨
      ∃ card, b k = some card ∧ card'.content = card.content ∧
        ((card'.rung = card.rung ∧ R.allows card'.mark card.rung = true) ∨
          (card'.rung = card.rung + 1 ∧ card.rung < R.height ∧ card'.mark = card.mark))) := by
  cases a with
  | post k content =>
    simp only [step] at h
    split_ifs at h with hnone
    exact ⟨k, _, (Option.some.inj h).symm, .inl ⟨Option.isNone_iff_eq_none.mp hnone, rfl, rfl⟩⟩
  | mark k mark =>
    obtain ⟨card, hk, h⟩ := Option.bind_eq_some_iff.mp h
    split_ifs at h with hallows
    exact ⟨k, _, (Option.some.inj h).symm, .inr ⟨card, hk, rfl, .inl ⟨rfl, hallows⟩⟩⟩
  | climb k =>
    obtain ⟨card, hk, h⟩ := Option.bind_eq_some_iff.mp h
    split_ifs at h with hlt
    exact ⟨k, _, (Option.some.inj h).symm, .inr ⟨card, hk, rfl, .inr ⟨rfl, hlt, rfl⟩⟩⟩

theorem legal_of_step (h : step R b a = some b') (hb : ∀ k card, b k = some card → card.Legal R)
    (k : κ) (card : Card γ σ) (hk : b' k = some card) : card.Legal R := by
  obtain ⟨k₀, new, rfl, hnew⟩ := step_cases h
  by_cases hne : k = k₀
  · rw [hne, put_self, Option.some.injEq] at hk
    subst hk
    rcases hnew with ⟨-, hmark, hrung⟩ | ⟨old, hold, -, ⟨hrung, hallows⟩ | ⟨hrung, hlt, hmark⟩⟩
    · exact ⟨by rw [hmark, hrung]; exact R.allows_initial, by omega⟩
    · exact ⟨by rw [hrung]; exact hallows, hrung ▸ (hb k₀ old hold).2⟩
    · refine ⟨?_, by omega⟩
      rw [hmark]
      exact R.allows_mono (by omega) (hb k₀ old hold).1
  · rw [put_of_ne hne] at hk
    exact hb k card hk

theorem becomes_of_step (h : step R b a = some b') (hk : b k = some card) :
    ∃ card', b' k = some card' ∧ card.Becomes card' := by
  obtain ⟨k₀, new, rfl, hnew⟩ := step_cases h
  by_cases hne : k = k₀
  · subst hne
    refine ⟨new, put_self, ?_⟩
    rcases hnew with ⟨hnone, -⟩ | ⟨old, hold, hcontent, hrung⟩
    · rw [hk] at hnone
      cases hnone
    · obtain rfl : card = old := Option.some.inj (hk.symm.trans hold)
      exact ⟨hcontent, by rcases hrung with ⟨hrung, -⟩ | ⟨hrung, -⟩ <;> omega⟩
  · exact ⟨card, (put_of_ne hne).trans hk, rfl, Nat.le_refl _⟩

/-- A card climbs one rung at a time. -/
theorem rung_le_of_step (h : step R b a = some b') (k : κ) : b'.rung k ≤ b.rung k + 1 := by
  obtain ⟨k₀, new, rfl, hnew⟩ := step_cases h
  by_cases hne : k = k₀
  · subst hne
    rw [rung, put_self, Option.elim_some]
    rcases hnew with ⟨-, -, hrung⟩ | ⟨old, hold, -, ⟨hrung, -⟩ | ⟨hrung, -⟩⟩
    · omega
    · rw [rung, hold, hrung]
      exact Nat.le_succ _
    · rw [rung, hold, hrung]
      exact Nat.le_refl _
  · rw [rung, rung, put_of_ne hne]
    exact Nat.le_succ _

/-! ## Whole runs -/

/-- **Every card keeps to the rules**, whatever is posted, marked and done. -/
theorem legal_of_reachable (h : (machine R).Reachable b) (hk : b k = some card) :
    card.Legal R :=
  h.invariant (I := fun b : Board κ γ σ => ∀ k card, b k = some card → card.Legal R)
    (fun h0 k card hk => by subst h0; cases hk)
    (fun _ ih hs => legal_of_step hs ih) k card hk

/-- **A card stays**, says what it said, and stands where it stood or higher. -/
theorem kept_of_path {ok : Board κ γ σ → Action κ γ σ → Prop} (hp : (machine R).Path ok b b')
    (hk : b k = some card) : ∃ card', b' k = some card' ∧ card.Becomes card' := by
  refine hp.invariant (I := fun b' => ∃ card', b' k = some card' ∧ card.Becomes card')
    ⟨card, hk, rfl, Nat.le_refl _⟩ fun _ ih _ hs => ?_
  obtain ⟨mid, hmid, hcontent, hle⟩ := ih
  obtain ⟨card', hk', hcontent', hle'⟩ := becomes_of_step hs hmid
  exact ⟨card', hk', hcontent'.trans hcontent, Nat.le_trans hle hle'⟩

end

/-! ## Milestones -/

/-- Of milestones that are passed in order, the number passed tells which. -/
theorem passed_iff {l : List Bool} (h : l.Pairwise fun x y => y = true → x = true) {i : ℕ} :
    l[i]? = some true ↔ i < l.count true := by
  induction l generalizing i with
  | nil => simp
  | cons x l ih =>
    obtain ⟨hx, hl⟩ := List.pairwise_cons.mp h
    cases x with
    | true =>
      cases i with
      | zero => simp
      | succ i => simpa using ih hl
    | false =>
      have hnone : ∀ y ∈ l, y = false := fun y hy => by
        cases y with
        | false => rfl
        | true => exact absurd (hx true hy rfl) Bool.false_ne_true
      have hcount : (false :: l).count true = 0 := by
        rw [List.count_eq_zero, List.mem_cons]
        rintro (htrue | hmem)
        · cases htrue
        · exact absurd (hnone true hmem) (by decide)
      rw [hcount]
      refine iff_of_false (fun hi => ?_) (Nat.not_lt_zero i)
      rcases List.mem_cons.mp (List.mem_of_getElem? hi) with hfalse | hmem
      · cases hfalse
      · exact absurd (hnone true hmem) (by decide)

/-- Passing one milestone is climbing one rung, unless it was passed before. -/
theorem count_set {l : List Bool} {i : ℕ} (hi : i < l.length) :
    (l.set i true).count true = l.count true ∨
      (l.set i true).count true = l.count true + 1 ∧ l.count true < l.length := by
  cases hget : l[i] with
  | true =>
    refine .inl ?_
    rw [← hget, List.set_getElem_self]
  | false =>
    refine .inr ?_
    have hmem : false ∈ l := hget ▸ List.getElem_mem hi
    rw [List.count_set hi, hget]
    refine ⟨by simp, Nat.lt_of_le_of_ne List.count_le_length fun heq => ?_⟩
    exact absurd (List.count_eq_length.mp heq false hmem) (by decide)

end Board

import Mathlib.Data.Nat.Notation
import Mathlib.Logic.Relation

/-!
# Guarded machines and their invariants

A machine takes named actions, each of which may be disabled in a state. Several
processes that interleave are one machine: which process moves, and what its
environment answers, is part of the action. Nothing is assumed about the order of
actions, so a property of every reachable state is a property of every interleaving.

Runs are also considered under a side condition on the steps they take (`Along`,
`Path`). A condition reads the state before a step and the action taken, never the
state after it.

## Main definitions

* `Machine.run`, `Machine.runIf` — execute a list of actions.
* `Machine.Path ok s t` — `t` is reached from `s` by steps that all meet `ok`.
* `Machine.Along ok t` — the same from an initial state; `Machine.Reachable` drops
  the condition.
* `Machine.Path.invariant`, `Machine.Along.invariant` — the invariant rules.
* `Machine.Path.image` — a path of one machine seen in a component.
* `Machine.Path.exists_between` — what a measure that grows slowly passes on the way.
* `Machine.Trace`, `Machine.Trace.forall_iff` — the steps taken, each with the state before it,
  and when all of them meet one condition exactly if they meet another.
* `Machine.Path.linear`, `Machine.Path.exists_done` — machines that run by themselves, and
  their end.
-/

/-- A machine whose action `a` is disabled in `s` when `step s a = none`. -/
structure Machine (σ α : Type*) where
  init : σ → Prop
  step : σ → α → Option σ

namespace Machine
variable {σ α σ' α' : Type*} (M : Machine σ α)

/-- Execute a list of actions while each meets `ok`; `none` as soon as one does not or is
disabled. -/
def runIf (ok : σ → α → Prop) [∀ s a, Decidable (ok s a)] (s : σ) : List α → Option σ
  | [] => some s
  | a :: as => if ok s a then (M.step s a).bind fun s' => runIf ok s' as else none

/-- Execute a list of actions; `none` as soon as one of them is disabled. -/
def run (s : σ) (as : List α) : Option σ := M.runIf (fun _ _ => True) s as

/-- `t` is reached from `s` by steps that each meet `ok`. -/
inductive Path (ok : σ → α → Prop) (s : σ) : σ → Prop
  | refl : Path ok s s
  | tail {t u : σ} {a : α} (h : Path ok s t) (hok : ok t a) (hs : M.step t a = some u) :
      Path ok s u

/-- `t` is reached from an initial state by steps that each meet `ok`. -/
def Along (ok : σ → α → Prop) (t : σ) : Prop := ∃ s, M.init s ∧ M.Path ok s t

/-- Reached from an initial state by any steps. -/
def Reachable (t : σ) : Prop := M.Along (fun _ _ => True) t

variable {M} {ok ok' : σ → α → Prop} {s t u : σ} {a : α}

namespace Path

theorem single (hok : ok s a) (hs : M.step s a = some t) : M.Path ok s t := .tail .refl hok hs

theorem trans (h : M.Path ok s t) (h' : M.Path ok t u) : M.Path ok s u := by
  induction h' with
  | refl => exact h
  | tail _ hok hs ih => exact .tail ih hok hs

theorem mono (himp : ∀ s a, ok s a → ok' s a) (h : M.Path ok s t) : M.Path ok' s t := by
  induction h with
  | refl => exact .refl
  | tail _ hok hs ih => exact .tail ih (himp _ _ hok) hs

/-- A path is empty or has a first step. -/
theorem eq_or_head (h : M.Path ok s t) :
    s = t ∨ ∃ a u, M.step s a = some u ∧ M.Path ok u t := by
  induction h with
  | refl => exact .inl rfl
  | tail _ hok hs ih =>
    rcases ih with rfl | ⟨a, u, hu, hp⟩
    · exact .inr ⟨_, _, hs, .refl⟩
    · exact .inr ⟨a, u, hu, hp.tail hok hs⟩

/-- Executing a list of actions that all meet `ok` is a path. -/
theorem of_runIf [∀ s a, Decidable (ok s a)] {as : List α} (h : M.runIf ok s as = some t) :
    M.Path ok s t := by
  induction as generalizing s with
  | nil => cases h; exact .refl
  | cons a as ih =>
    simp only [runIf] at h
    split at h
    · rename_i hok
      obtain ⟨s', hs', h'⟩ := Option.bind_eq_some_iff.mp h
      exact (single hok hs').trans (ih h')
    · cases h

/-- **The invariant rule along a path.** The step obligation may use that the state
before the step lies on the path. -/
theorem invariant {I : σ → Prop} (h : M.Path ok s t) (h0 : I s)
    (hstep : ∀ {t a u}, M.Path ok s t → I t → ok t a → M.step t a = some u → I u) : I t := by
  induction h with
  | refl => exact h0
  | tail hp hok hs ih => exact hstep hp ih hok hs

/-- **The two-state rule.** A reflexive and transitive relation that every step
respects holds between the ends of a path. -/
theorem relation {R : σ → σ → Prop} (h : M.Path ok s t) (hrefl : ∀ s, R s s)
    (htrans : ∀ {s t u}, R s t → R t u → R s u)
    (hstep : ∀ {t a u}, M.Path ok s t → ok t a → M.step t a = some u → R t u) : R s t :=
  h.invariant (hrefl s) fun hp hR hok hs => htrans hR (hstep hp hok hs)

/-- **The intermediate value rule.** Of a measure that grows by one at most with each step, every
value between those at the ends is met on the way. -/
theorem exists_between {μ : σ → ℕ} (h : M.Path ok s t)
    (hstep : ∀ {t a u}, M.Path ok s t → M.step t a = some u → μ u ≤ μ t + 1) {n : ℕ}
    (hs : μ s ≤ n) (ht : n ≤ μ t) : ∃ u, M.Path ok s u ∧ M.Path ok u t ∧ μ u = n := by
  induction h with
  | refl => exact ⟨s, .refl, .refl, by omega⟩
  | @tail v w a hp hok hvw ih =>
    by_cases hle : n ≤ μ v
    · obtain ⟨u, hsu, huv, hn⟩ := ih hle
      exact ⟨u, hsu, huv.tail hok hvw, hn⟩
    · have hgrow := hstep hp hvw
      exact ⟨w, hp.tail hok hvw, .refl, by omega⟩

/-- **The termination rule.** If every state reached is `done` or can step, and `μ` grows with
each step but is bounded, then a state that is `done` is reached. -/
theorem exists_done (done : σ → Prop) (μ : σ → ℕ) (N : ℕ)
    (hbound : ∀ {t}, M.Path ok s t → μ t ≤ N)
    (hprogress : ∀ {t}, M.Path ok s t →
      done t ∨ ∃ a u, ok t a ∧ M.step t a = some u ∧ μ t < μ u) :
    ∃ t, M.Path ok s t ∧ done t := by
  induction hn : N - μ s using Nat.strongRecOn generalizing s with
  | ind n ih =>
    rcases hprogress .refl with hdone | ⟨a, u, hok, hu, hlt⟩
    · exact ⟨s, .refl, hdone⟩
    · have hp : M.Path ok s u := .single hok hu
      have hle := hbound hp
      obtain ⟨t, ht, hdone⟩ := ih (N - μ u) (by omega) (fun h => hbound (hp.trans h))
        (fun h => hprogress (hp.trans h)) rfl
      exact ⟨t, hp.trans ht, hdone⟩

/-- **The steps decide.** Where a machine has one action, of two states on its run one is
reached from the other. -/
theorem linear [Subsingleton α] (h : M.Path (fun _ _ => True) s t)
    (h' : M.Path (fun _ _ => True) s u) :
    M.Path (fun _ _ => True) t u ∨ M.Path (fun _ _ => True) u t := by
  induction h' with
  | refl => exact .inr h
  | @tail v w a _ _ hs ih =>
    rcases ih with htv | hvt
    · exact .inl (htv.tail trivial hs)
    · rcases hvt.eq_or_head with rfl | ⟨b, x, hx, hxt⟩
      · exact .inl (single trivial hs)
      · rw [Subsingleton.elim b a, hs] at hx
        cases hx
        exact .inr hxt

/-- **Projection to a component.** If every step of `M` is either invisible through `f` or
a step of the component machine, a path of `M` is a path of the component. -/
theorem image {N : Machine σ' α'} (f : σ → σ')
    (hstep : ∀ {t a u}, M.step t a = some u → f u = f t ∨ ∃ b, N.step (f t) b = some (f u))
    (h : M.Path ok s t) : N.Path (fun _ _ => True) (f s) (f t) := by
  induction h with
  | refl => exact .refl
  | tail _ _ hs ih =>
    rcases hstep hs with heq | ⟨b, hb⟩
    · rw [heq]; exact ih
    · exact .tail ih trivial hb

end Path

namespace Along

theorem init (h : M.init s) : M.Along ok s := ⟨s, h, .refl⟩

/-- Executing a list of actions that all meet `ok` finds a state, if one passes the test. -/
theorem exists_of_runIf [∀ s a, Decidable (ok s a)] {as : List α} {p : σ → Bool} (h0 : M.init s)
    (h : (M.runIf ok s as).any p = true) : ∃ t, M.Along ok t ∧ p t = true := by
  obtain ⟨t, ht, hp⟩ := (Option.any_eq_true p _).mp h
  exact ⟨t, ⟨s, h0, .of_runIf ht⟩, hp⟩

/-- The same for a state and a step from it. -/
theorem exists_step_of_runIf [∀ s a, Decidable (ok s a)] {as : List α} {a : α} {p : σ → σ → Bool}
    (h0 : M.init s) (h : ((M.runIf ok s as).any fun t => (M.step t a).any (p t)) = true) :
    ∃ t u, M.Along ok t ∧ M.step t a = some u ∧ p t u = true := by
  obtain ⟨t, ht, h⟩ := exists_of_runIf h0 h
  obtain ⟨u, hu, hp⟩ := (Option.any_eq_true (p t) _).mp h
  exact ⟨t, u, ht, hu, hp⟩

theorem path (h : M.Along ok s) (hp : M.Path ok s t) : M.Along ok t := by
  obtain ⟨s₀, h0, hp'⟩ := h
  exact ⟨s₀, h0, hp'.trans hp⟩

theorem mono (himp : ∀ s a, ok s a → ok' s a) (h : M.Along ok s) : M.Along ok' s := by
  obtain ⟨s₀, h0, hp⟩ := h
  exact ⟨s₀, h0, hp.mono himp⟩

theorem reachable (h : M.Along ok s) : M.Reachable s := h.mono fun _ _ _ => trivial

/-- **The invariant rule.** The step obligation may use that the state before the step
is reached under the same condition, hence every invariant proved before. -/
theorem invariant {I : σ → Prop} (h : M.Along ok t) (h0 : ∀ {s}, M.init s → I s)
    (hstep : ∀ {t a u}, M.Along ok t → I t → ok t a → M.step t a = some u → I u) : I t := by
  obtain ⟨s, hs, hp⟩ := h
  exact hp.invariant (h0 hs) fun hp hI hok hst => hstep ⟨s, hs, hp⟩ hI hok hst

end Along

/-! ### Traces -/

variable (M) in
/-- `t` is reached from `s` by these steps, each given by the state before it and its action. -/
inductive Trace (s : σ) : List (σ × α) → σ → Prop
  | nil : Trace s [] s
  | snoc {l : List (σ × α)} {t u : σ} {a : α} (h : Trace s l t) (hs : M.step t a = some u) :
      Trace s (l ++ [(t, a)]) u

namespace Trace
variable {l : List (σ × α)}

/-- **The pointwise rule.** Where an invariant makes two conditions on a step equivalent, and is
kept by the steps that meet them, all steps of a trace meet one if all meet the other. -/
theorem forall_iff {I : σ → Prop} {P Q : σ → α → Prop} (h : M.Trace s l t) (h0 : I s)
    (hiff : ∀ {t a}, I t → (P t a ↔ Q t a))
    (hstep : ∀ {t a u}, I t → Q t a → M.step t a = some u → I u) :
    (∀ p ∈ l, P p.1 p.2) ↔ ∀ p ∈ l, Q p.1 p.2 := by
  have hboth : ((∀ p ∈ l, P p.1 p.2) ↔ ∀ p ∈ l, Q p.1 p.2) ∧ ((∀ p ∈ l, Q p.1 p.2) → I t) := by
    induction h with
    | nil => exact ⟨by simp, fun _ => h0⟩
    | @snoc l t u a _ hs ih =>
      obtain ⟨hl, hI⟩ := ih
      simp only [List.forall_mem_append, List.forall_mem_singleton]
      constructor
      · rw [hl]
        exact and_congr_right fun hq => hiff (hI hq)
      · intro hq
        exact hstep (hI hq.1) hq.2 hs
  exact hboth.1

end Trace

namespace Reachable

theorem init (h : M.init s) : M.Reachable s := Along.init h

theorem path (h : M.Reachable s) (hp : M.Path ok s t) : M.Reachable t :=
  Along.path h (hp.mono fun _ _ _ => trivial)

theorem step (h : M.Reachable s) (hs : M.step s a = some t) : M.Reachable t :=
  have hp : M.Path (fun _ _ => True) s t := .single trivial hs
  h.path hp

/-- The invariant rule without a condition on the steps. -/
theorem invariant {I : σ → Prop} (h : M.Reachable t) (h0 : ∀ {s}, M.init s → I s)
    (hstep : ∀ {t a u}, M.Reachable t → I t → M.step t a = some u → I u) : I t :=
  Along.invariant h h0 fun ht hI _ hs => hstep ht hI hs

/-- The termination rule without a condition on the steps. -/
theorem exists_done (done : σ → Prop) (μ : σ → ℕ) (N : ℕ) (h : M.Reachable s)
    (hbound : ∀ {t}, M.Reachable t → μ t ≤ N)
    (hprogress : ∀ {t}, M.Reachable t → done t ∨ ∃ a u, M.step t a = some u ∧ μ t < μ u) :
    ∃ t, M.Path (fun _ _ => True) s t ∧ done t :=
  Path.exists_done done μ N (fun hp => hbound (h.path hp)) fun hp =>
    (hprogress (h.path hp)).imp_right fun ⟨a, u, hu, hlt⟩ => ⟨a, u, trivial, hu, hlt⟩

end Reachable

end Machine

import ReportTriage.Causality

/-!
# Retries

A run awaits one activity after the other, and every retry policy allows three attempts. So a
run schedules a bounded number of attempts, and it never waits for anything but an attempt: its
next attempt can be scheduled, or is executing, or has a result the run goes on with.

## Main definitions

* `System.attemptsOf`, `System.attemptsOf_le` — the attempts of a run, and their bound.
* `System.progress` — an open run is never stuck.
-/

namespace ReportTriage

/-- A run has used no more attempts than its awaits allow, and waits for one it has a right to. -/
structure Run.InBudget (run : Run) (attempts : ℕ) : Prop where
  attempts_le : run.attempts ≤ 3
  spare : run.outstanding = none → run.pc.isClosed = false → run.attempts < 3
  total_le : attempts ≤ 3 * run.pc.rank + run.attempts

theorem Run.InBudget.attemptFailed {run : Run} {call : ActivityCall} {n : ℕ}
    (h : run.InBudget n) (hcall : run.pc.call run.reportId = some call) (e : Failure) :
    (run.attemptFailed e).InBudget n := by
  have hle := h.attempts_le
  have htotal := h.total_le
  simp only [Run.attemptFailed, hcall, WorkflowPc.allows_call hcall]
  split
  · rename_i hagain
    simp only [Bool.and_eq_true, decide_eq_true_eq] at hagain
    exact ⟨hle, fun _ _ => hagain.1, htotal⟩
  · have := WorkflowPc.rank_raise e hcall
    exact ⟨Nat.zero_le _, fun _ _ => Nat.succ_pos 2, by dsimp only; omega⟩

theorem Run.InBudget.succeeded {run run' : Run} {v : Value} {n : ℕ} (h : run.InBudget n)
    (hrun : run.succeeded v = some run') : run'.InBudget n := by
  obtain ⟨pc', hresume, rfl⟩ := Option.map_eq_some_iff.mp hrun
  have hle := h.attempts_le
  have htotal := h.total_le
  have := WorkflowPc.rank_resume hresume
  exact ⟨Nat.zero_le _, fun _ _ => Nat.succ_pos 2, by dsimp only; omega⟩

namespace System

/-- How many attempts the run has had. -/
def attemptsOf (s : System) (ρ : ℕ) : ℕ := (s.attempts.map Attempt.run).count ρ

section
variable [UnicodeData] {s s' : System} {a : Action} {ρ : ℕ}

/-! ## The bound -/

/-- A run gets an attempt when one is scheduled for it. -/
theorem Effect.attemptsOf (he : Effect s a s') :
    (s'.attemptsOf ρ = s.attemptsOf ρ ∧ a ≠ .schedule ρ) ∨
      s'.attemptsOf ρ = s.attemptsOf ρ + 1 ∧ a = .schedule ρ := by
  have hset : ∀ (i : ℕ) (p : AttemptPhase), (s.setPhase i p).attemptsOf ρ = s.attemptsOf ρ := by
    intro i p
    simp only [System.attemptsOf, setPhase]
    congr 1
    apply List.ext_getElem?
    intro j
    simp only [List.getElem?_map, List.getElem?_modify]
    cases s.attempts[j]? <;> simp
    split <;> rfl
  cases he with
  | arrived | inserted | reset | started | startFailed => exact .inl ⟨rfl, nofun⟩
  | requestMoved _ hm => exact .inl ⟨rfl, by rintro rfl; nomatch hm⟩
  | runMoved _ _ hm => exact .inl ⟨rfl, by rintro rfl; nomatch hm⟩
  | attemptMoved _ hm => exact .inl ⟨hset _ _, by rintro rfl; nomatch hm⟩
  | marked => exact .inl ⟨hset _ _, nofun⟩
  | upserted ha => exact .inl ⟨hset _ _, by rintro rfl; simp at ha⟩
  | published => exact .inl ⟨hset _ _, nofun⟩
  | @scheduled σ =>
    by_cases hσ : σ = ρ
    · subst hσ
      exact .inr ⟨by simp [System.attemptsOf], rfl⟩
    · exact .inl ⟨by simp [System.attemptsOf, hσ], fun h => hσ (by cases h; rfl)⟩

/-- **One step.** -/
theorem inBudget_step
    (h : ∀ (σ : ℕ) (run : Run), s.runs[σ]? = some run → run.InBudget (s.attemptsOf σ))
    (hco : Coherent s) (he : Effect s a s') {run' : Run} (hρ' : s'.runs[ρ]? = some run') :
    run'.InBudget (s'.attemptsOf ρ) := by
  rcases @Effect.attemptsOf _ _ _ _ ρ he with ⟨hcount, hne⟩ | ⟨hcount, rfl⟩
  · rw [hcount]
    cases he.run hρ' with
    | same hρ => exact h ρ run' hρ
    | started outcome hq hreaches hlen =>
      have hnone : s.attemptsOf ρ = 0 := by
        refine List.count_eq_zero_of_not_mem fun hmem => ?_
        obtain ⟨x, hx, hrun⟩ := List.mem_map.mp hmem
        obtain ⟨i, hi⟩ := List.getElem?_of_mem hx
        obtain ⟨run, hρ, -⟩ := hco.attempt i x hi
        have := (List.getElem?_eq_some_iff.mp hρ).1
        omega
      exact ⟨Nat.zero_le _, fun _ _ => Nat.succ_pos 2, by rw [hnone]; exact Nat.zero_le _⟩
    | @terminated _ _ _ _ run _ _ _ hρ =>
      obtain ⟨hle, hspare, htotal⟩ := h ρ run hρ
      exact ⟨hle, hspare, htotal⟩
    | scheduled => exact (hne rfl).elim
    | @moved a run _ hρ hopen hm =>
      have hbudget := h ρ run hρ
      cases hm with
      | succeeded _ _ _ hrun => exact hbudget.succeeded hrun
      | failed hout | timedOut hout =>
        obtain ⟨⟨x, call, -, -, hcall, -⟩, -⟩ := hco.outstanding ρ run _ hρ hout
        exact hbudget.attemptFailed hcall _
  · obtain ⟨run, call, hρ, hcall, hout, hnew, -⟩ := he.of_schedule
    rw [hρ'] at hnew
    cases hnew
    obtain ⟨-, hspare, htotal⟩ := h ρ run hρ
    have hlt := hspare hout (WorkflowPc.isClosed_of_call hcall)
    exact ⟨hlt, nofun, by rw [hcount]; dsimp only; omega⟩

theorem inBudget_of_reachable (h : machine.Reachable s) :
    ∀ (ρ : ℕ) (run : Run), s.runs[ρ]? = some run → run.InBudget (s.attemptsOf ρ) :=
  h.invariant
    (I := fun s => ∀ (ρ : ℕ) (run : Run), s.runs[ρ]? = some run → run.InBudget (s.attemptsOf ρ))
    (fun h0 => by subst h0; simp [empty])
    fun ht ih hstep _ _ hρ =>
      inBudget_step ih (coherent_of_reachable ht) (effect_of_step hstep) hρ

/-- **A run has at most three attempts for each await**, those behind it and the present one. -/
theorem attemptsOf_le (h : machine.Reachable s) {run : Run} (hρ : s.runs[ρ]? = some run) :
    s.attemptsOf ρ ≤ 3 * run.pc.rank + 3 := by
  obtain ⟨hle, -, htotal⟩ := inBudget_of_reachable h ρ run hρ
  omega

/-! ## Progress -/

/-- **An open run is never stuck.** Its next attempt can be scheduled, or it waits for one that
is executing, or for one that has finished and whose result it can go on with. -/
theorem progress (h : machine.Reachable s) {run : Run} (hρ : s.runs[ρ]? = some run)
    (hopen : run.isOpen = true) :
    (run.outstanding = none ∧ (machine.step s (.schedule ρ)).isSome) ∨
    ∃ i x, run.outstanding = some i ∧ s.attempts[i]? = some x ∧
      (x.isFinished = false ∨ (machine.step s (.complete ρ)).isSome) := by
  have hcausal := causal_of_reachable h
  have hclosed : run.pc.isClosed = false := by
    simp only [Run.isOpen, Bool.and_eq_true, Bool.not_eq_true'] at hopen
    exact hopen.2
  obtain ⟨call, hcall⟩ := WorkflowPc.call_of_not_isClosed run.reportId hclosed
  cases hout : run.outstanding with
  | none =>
    refine .inl ⟨rfl, ?_⟩
    simp [machine, step, schedule, hρ, hcall, hopen, hout]
  | some i =>
    obtain ⟨⟨x, call', hx, -, hcall', hact⟩, -⟩ :=
      (coherent_of_reachable h).outstanding ρ run i hρ hout
    rw [hcall] at hcall'
    cases hcall'
    refine .inr ⟨i, x, rfl, hx, ?_⟩
    by_cases hfinished : x.isFinished = true
    · refine .inr ?_
      obtain ⟨result, hp⟩ : ∃ result, x.phase = .finished result := by
        unfold Attempt.isFinished at hfinished
        split at hfinished
        · rename_i result hp
          exact ⟨result, hp⟩
        · cases hfinished
      cases result with
      | ok v =>
        obtain ⟨pc', hresume, -⟩ :=
          WorkflowPc.justified_resume (hcausal.pc ρ run hρ) hcall
            (hact ▸ hcausal.returns i x v hx hp)
        simp [machine, step, complete, hρ, hout, hx, hp, hopen, Run.succeeded, hresume]
      | error e => simp [machine, step, complete, hρ, hout, hx, hp, hopen]
    · exact .inl (Bool.eq_false_of_not_eq_true hfinished)

end
end System

end ReportTriage

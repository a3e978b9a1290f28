import ReportTriage.Lib.Counting
import ReportTriage.Publication
import ReportTriage.Retries
import ReportTriage.StartWindow

/-!
# What a report can cost

Requests start runs, runs have attempts, and attempts publish. Each of these is retried on its own,
and an attempt that was given up may go on executing; still the work done for a report is bounded
by the requests made about it, however late anything is.

## Main definitions

* `Activity.rank` — the place of an activity in the workflow.
* `System.runs_le` — a run for each request that starts one.
* `System.work_bounded` — runs, attempts and messages of a report.
-/

namespace ReportTriage

/-- How many awaits of the workflow are behind when the activity is called. -/
def Activity.rank : Activity → ℕ
  | .loadReport _ => 0
  | .markReportProcessing _ => 1
  | .classifyReport _ => 2
  | .scorePriority _ _ => 3
  | .decideReview _ _ _ => 4
  | .persistClassification _ _ _ _ _ _ => 5
  | .routeQueue _ _ => 6
  | .publishTriageEvents _ _ _ _ _ _ => 7
  | .markReportClassified _ => 8
  | .markReportFailed _ => 9

theorem WorkflowPc.rank_of_call {pc : WorkflowPc} {r : String} {call : ActivityCall}
    (h : pc.call r = some call) : call.activity.rank = pc.rank := by
  cases pc <;> cases h <;> rfl

namespace Run
variable {run run' : Run}

/-- How many attempts a run may have had at a place. -/
def allowance (run : Run) (k : ℕ) : ℕ :=
  if k < run.pc.rank then 3 else if k = run.pc.rank then run.attempts else 0

/-- The run stays where it is, with its attempts, or goes on. -/
def Moves (run run' : Run) : Prop :=
  run'.pc.rank = run.pc.rank ∧ run'.attempts = run.attempts ∨ run.pc.rank < run'.pc.rank

theorem moves_succeeded {v : Value} (h : run.succeeded v = some run') : run.Moves run' := by
  obtain ⟨pc', hresume, rfl⟩ := Option.map_eq_some_iff.mp h
  have hrank := WorkflowPc.rank_resume hresume
  exact .inr (show run.pc.rank < pc'.rank by omega)

theorem moves_attemptFailed {call : ActivityCall} (h : run.pc.call run.reportId = some call)
    (e : Failure) : run.Moves (run.attemptFailed e) := by
  simp only [attemptFailed, h]
  split
  · exact .inl ⟨rfl, rfl⟩
  · exact .inr (WorkflowPc.rank_raise e h)

theorem allowance_mono {k : ℕ} (hle : run.attempts ≤ 3) (h : run.Moves run') :
    run.allowance k ≤ run'.allowance k := by
  simp only [allowance]
  rcases h with ⟨hrank, hattempts⟩ | hlt
  · rw [hrank, hattempts]
  · split_ifs <;> omega

end Run

/-- The attempt publishes the messages of the report. -/
def Attempt.publishes (r : String) (x : Attempt) : Bool :=
  match x.activity with
  | .publishTriageEvents reportId _ _ _ _ _ => reportId = r
  | _ => false

/-- The attempt has had its first statement executed. -/
def Attempt.hasBegun (x : Attempt) : Bool :=
  match x.phase with
  | .running => false
  | _ => true

/-- The request reprocesses the report. -/
def Request.reprocesses (r : String) (q : Request) : Bool :=
  match q.endpoint with
  | .reprocess reportId => reportId = r
  | .create _ _ => false

namespace System

section
variable [UnicodeData] {s s' : System} {a : Action} {r : String}

/-! ## Runs -/

omit [UnicodeData] in
theorem reportIds_startWorkflow (runs : List Run) (r : String) :
    (startWorkflow runs r).map Run.reportId = runs.map Run.reportId ++ [r] := by
  rw [startWorkflow, List.map_append, List.map_map]
  congr 1
  refine List.map_congr_left fun run _ => ?_
  simp only [Function.comp_apply]
  split <;> rfl

omit [UnicodeData] in
theorem reportIds_set {runs : List Run} {ρ : ℕ} {run run' : Run} (hρ : runs[ρ]? = some run)
    (hid : run'.reportId = run.reportId) :
    (runs.set ρ run').map Run.reportId = runs.map Run.reportId := by
  refine List.ext_getElem? fun σ => ?_
  rw [List.getElem?_map, List.getElem?_map, List.getElem?_set]
  split
  · rename_i hσ
    subst hσ
    rw [hρ, if_pos (List.getElem?_eq_some_iff.mp hρ).1]
    exact congrArg some hid
  · rfl

/-- A run comes with each start that the server accepts. -/
theorem count_runs (h : machine.Reachable s) (r : String) :
    (s.runs.map Run.reportId).count r = s.history.countP (Event.isAcceptedStart r) := by
  refine h.invariant (I := fun s => (s.runs.map Run.reportId).count r =
    s.history.countP (Event.isAcceptedStart r)) (fun h0 => by subst h0; rfl)
    fun {t a u} _ ih hs => ?_
  have hlogged : ∀ {ev : Event}, ev.isAcceptedStart r = false →
      (ev :: t.history).countP (Event.isAcceptedStart r) =
        t.history.countP (Event.isAcceptedStart r) := by
    intro ev hev
    rw [List.countP_cons_of_neg (by simp [hev])]
  cases effect_of_step hs with
  | arrived | requestMoved | attemptMoved | upserted | published => exact ih
  | inserted | reset | startFailed | marked => exact ih.trans (hlogged rfl).symm
  | scheduled hρ =>
    refine Eq.trans (congrArg (List.count r) (reportIds_set hρ ?_)) ih
    rfl
  | runMoved hρ _ hm => exact (congrArg _ (reportIds_set hρ hm.reportId)).trans ih
  | @started q e reportId held outcome hq =>
    by_cases hreaches : outcome.reachesServer = true
    · simp only [hreaches, if_true]
      rw [reportIds_startWorkflow, List.count_append, List.countP_cons, ih, List.count_singleton]
      simp [Event.isAcceptedStart, hreaches]
    · simp only [hreaches]
      exact ih.trans (hlogged (by simp [Event.isAcceptedStart, hreaches])).symm

/-- Whoever has called `start_workflow` for a report reprocesses it, or has inserted it. -/
theorem startedBy (h : machine.Reachable s) : ∀ (q : ℕ) (r : String) (outcome : StartOutcome),
    .startCalled q r outcome ∈ s.history →
      (∃ x, s.requests[q]? = some x ∧ x.reprocesses r = true) ∨ .inserted q r ∈ s.history := by
  refine h.invariant (I := fun s => ∀ (q : ℕ) (r : String) (outcome : StartOutcome),
    .startCalled q r outcome ∈ s.history →
      (∃ x, s.requests[q]? = some x ∧ x.reprocesses r = true) ∨ .inserted q r ∈ s.history)
    (fun h0 => by subst h0; simp [empty]) fun {t a u} ht ih hs q r outcome hev => ?_
  have he := effect_of_step hs
  have hkept : ∀ {e : Endpoint} {pc : RequestPc}, t.requests[q]? = some ⟨e, pc⟩ →
      Request.reprocesses r ⟨e, pc⟩ = true →
      ∃ x, u.requests[q]? = some x ∧ x.reprocesses r = true := by
    intro e pc hq hr
    obtain ⟨pc', hq'⟩ := he.request_kept hq
    exact ⟨_, hq', hr⟩
  rcases he.event hev with hold | hnew
  · rcases ih q r outcome hold with ⟨x, hx, hr⟩ | hins
    · exact .inl (hkept hx hr)
    · exact .inr (he.event_kept hins)
  · cases hnew with
    | @started _ e reportId held _ hq =>
      cases e with
      | reprocess reportId =>
        obtain ⟨hown, -⟩ := (coherent_of_reachable ht).window _ _ _ _ hq rfl
        refine .inl (hkept hq ?_)
        simp [Request.reprocesses, hown reportId rfl]
      | create payload key =>
        exact .inr (he.event_kept ((intake_of_reachable ht).window _ _ _ _ _ hq rfl))

/-- Of a run that was followed by another of its report, nothing is open. -/
theorem closed_of_followed (h : machine.Reachable s) : ∀ (ρ σ : ℕ) (run run' : Run), ρ < σ →
    s.runs[ρ]? = some run → s.runs[σ]? = some run' → run.reportId = run'.reportId →
    run.isOpen = false := by
  refine h.invariant (I := fun s => ∀ (ρ σ : ℕ) (run run' : Run), ρ < σ →
    s.runs[ρ]? = some run → s.runs[σ]? = some run' → run.reportId = run'.reportId →
    run.isOpen = false) (fun h0 => by subst h0; simp [empty])
    fun {t a u} _ ih hs => ?_
  -- An open run that goes on stays the last one of its report.
  have hset : ∀ {τ : ℕ} {old new : Run}, t.runs[τ]? = some old → old.isOpen = true →
      new.reportId = old.reportId → ∀ (ρ σ : ℕ) (run run' : Run), ρ < σ →
      (t.runs.set τ new)[ρ]? = some run → (t.runs.set τ new)[σ]? = some run' →
      run.reportId = run'.reportId → run.isOpen = false := by
    intro τ old new hτ hopen hid ρ σ run run' hlt hρ hσ heq
    rcases Slots.set_cases hρ with ⟨rfl, rfl⟩ | ⟨hne, hρ'⟩
    · rcases Slots.set_cases hσ with ⟨rfl, -⟩ | ⟨-, hσ'⟩
      · exact absurd hlt (lt_irrefl _)
      · have hclosed := ih ρ σ old run' hlt hτ hσ' (hid.symm.trans heq)
        rw [hopen] at hclosed
        cases hclosed
    · rcases Slots.set_cases hσ with ⟨rfl, rfl⟩ | ⟨-, hσ'⟩
      · exact ih ρ _ run old hlt hρ' hτ (heq.trans hid)
      · exact ih ρ σ run run' hlt hρ' hσ' heq
  cases effect_of_step hs with
  | arrived | requestMoved | inserted | reset | startFailed | attemptMoved | marked | upserted
  | published => exact ih
  | scheduled hρ hcall hopen hout => exact hset hρ hopen rfl
  | runMoved hρ hopen hm => exact hset hρ hopen hm.reportId
  | @started q e reportId held outcome hq =>
    dsimp only
    split
    · intro ρ σ run run' hlt hρ hσ heq
      rw [startWorkflow] at hρ hσ
      rcases Slots.append_cases hρ with hold | ⟨rfl, -⟩
      · rw [List.getElem?_map] at hold
        obtain ⟨run₀, hρ₀, rfl⟩ := Option.map_eq_some_iff.mp hold
        rcases Slots.append_cases hσ with hold' | ⟨-, rfl⟩
        · rw [List.getElem?_map] at hold'
          obtain ⟨run₀', hσ₀, rfl⟩ := Option.map_eq_some_iff.mp hold'
          have hids : run₀.reportId = run₀'.reportId := by
            split_ifs at heq <;> exact heq
          have hclosed := ih ρ σ run₀ run₀' hlt hρ₀ hσ₀ hids
          split
          · rfl
          · exact hclosed
        · split
          · rfl
          · rename_i hkept
            split at heq
            · rename_i hreplaced
              exact absurd hreplaced hkept
            · have hid : run₀.reportId = reportId := heq
              exact Bool.eq_false_iff.mpr fun hopen => hkept ⟨hopen, by rw [hid]⟩
      · have hbound := (List.getElem?_eq_some_iff.mp hσ).1
        simp only [List.length_append, List.length_map, List.length_singleton] at hbound hlt
        omega
    · exact ih

/-- One run of a report is open at most. -/
theorem open_le (h : machine.Reachable s) (r : String) :
    (s.runs.countP fun run => run.reportId = r && run.isOpen) ≤ 1 := by
  have hpairwise : s.runs.Pairwise fun run run' =>
      run.reportId = run'.reportId → run.isOpen = false := by
    rw [List.pairwise_iff_getElem]
    intro ρ σ hρ hσ hlt
    exact closed_of_followed h ρ σ _ _ hlt (List.getElem?_eq_getElem hρ)
      (List.getElem?_eq_getElem hσ)
  rw [List.countP_eq_length_filter]
  refine Slots.length_le_one_of_pairwise (hpairwise.filter _) fun run hrun run' hrun' hclosed => ?_
  obtain ⟨-, hrun⟩ := List.mem_filter.mp hrun
  obtain ⟨-, hrun'⟩ := List.mem_filter.mp hrun'
  simp only [Bool.and_eq_true, decide_eq_true_eq] at hrun hrun'
  rw [hclosed (hrun.1.trans hrun'.1.symm)] at hrun
  cases hrun.2

/-- A report has one run, and one more for each request to reprocess it, at most. -/
theorem runs_le (h : machine.Reachable s) (r : String) :
    (s.runs.countP fun run => run.reportId = r) ≤
      1 + s.requests.countP (Request.reprocesses r) := by
  have hintake := intake_of_reachable h
  -- The requests whose starts of this report were accepted.
  let starts : List Event := s.history.filter (Event.isAcceptedStart r)
  let callers : List ℕ := startCallers { s with history := starts }
  have hnodup : callers.Nodup := hintake.callsOnce.sublist (List.filter_sublist.filterMap _)
  have hlength : callers.length = s.history.countP (Event.isAcceptedStart r) := by
    rw [List.countP_eq_length_filter]
    refine List.filterMap_length_eq_length.mpr fun ev hev => ?_
    have hstart := (List.mem_filter.mp hev).2
    cases ev with
    | startCalled q reportId outcome => rfl
    | _ => cases hstart
  have hcaller : ∀ q ∈ callers,
      (∃ x, s.requests[q]? = some x ∧ x.reprocesses r = true) ∨ .inserted q r ∈ s.history := by
    intro q hq
    obtain ⟨reportId, outcome, hev⟩ := mem_startCallers.mp hq
    obtain ⟨hmem, hstart⟩ := List.mem_filter.mp hev
    simp only [Event.isAcceptedStart, Bool.and_eq_true, decide_eq_true_eq] at hstart
    exact startedBy h q r outcome (hstart.1 ▸ hmem)
  -- One of them has inserted the report, and the others reprocess it.
  let inserts : ℕ → Bool := fun q => decide (.inserted q r ∈ s.history)
  have hone : (callers.filter inserts).length ≤ 1 := by
    refine Slots.length_le_one_of_pairwise (hnodup.filter _) fun q hq q' hq' hne => hne ?_
    exact hintake.inserter q q' r (of_decide_eq_true (List.mem_filter.mp hq).2)
      (of_decide_eq_true (List.mem_filter.mp hq').2)
  have hothers : (callers.filter fun q => !inserts q).length ≤
      s.requests.countP (Request.reprocesses r) := by
    refine Slots.length_le_countP (hnodup.filter _) fun q hq => ?_
    obtain ⟨hmem, hnot⟩ := List.mem_filter.mp hq
    exact (hcaller q hmem).resolve_right (by simpa [inserts] using hnot)
  have hcount := count_runs h r
  have hsplit := List.length_eq_length_filter_add (l := callers) inserts
  rw [List.count, List.countP_map] at hcount
  have hruns : (s.runs.countP fun run => run.reportId = r) =
      s.history.countP (Event.isAcceptedStart r) := by
    rw [← hcount]
    exact List.countP_congr fun run _ => by simp
  omega

/-! ## Attempts -/

/-- How many attempts the run has had of the activity at a place. -/
def attemptsAt (s : System) (ρ k : ℕ) : ℕ :=
  (s.attempts.map fun x => (x.run, x.activity.rank)).count (ρ, k)

/-- A run gets an attempt when one is scheduled for it, at the place where it is. -/
theorem Effect.attemptsAt (he : Effect s a s') (ρ k : ℕ) :
    (s'.attemptsAt ρ k = s.attemptsAt ρ k ∧
      ∀ run, s.runs[ρ]? = some run → a = .schedule ρ → k ≠ run.pc.rank) ∨
    ∃ run, a = .schedule ρ ∧ s.runs[ρ]? = some run ∧ k = run.pc.rank ∧
      s'.attemptsAt ρ k = s.attemptsAt ρ k + 1 := by
  have hset : ∀ (i : ℕ) (p : AttemptPhase),
      (s.setPhase i p).attemptsAt ρ k = s.attemptsAt ρ k := by
    intro i p
    simp only [System.attemptsAt, setPhase]
    congr 1
    refine List.ext_getElem? fun j => ?_
    simp only [List.getElem?_map, List.getElem?_modify]
    cases s.attempts[j]? <;> simp
    split <;> exact ⟨rfl, rfl⟩
  cases he with
  | arrived | inserted | reset | started | startFailed =>
    exact .inl ⟨rfl, by rintro _ _ ⟨⟩⟩
  | requestMoved _ hm => exact .inl ⟨rfl, by rintro _ _ rfl; cases hm⟩
  | runMoved _ _ hm => exact .inl ⟨rfl, by rintro _ _ rfl; cases hm⟩
  | attemptMoved _ hm => exact .inl ⟨hset _ _, by rintro _ _ rfl; cases hm⟩
  | marked => exact .inl ⟨hset _ _, by rintro _ _ ⟨⟩⟩
  | upserted ha => exact .inl ⟨hset _ _, by rintro _ _ rfl; simp at ha⟩
  | published => exact .inl ⟨hset _ _, by rintro _ _ ⟨⟩⟩
  | @scheduled σ run call hσ hcall =>
    have hcount : ∀ {n : ℕ}, System.attemptsAt { s with
        runs := s.runs.set σ { run with attempts := n, outstanding := some s.attempts.length }
        attempts := s.attempts ++ [⟨σ, call.activity, .running⟩] } ρ k =
          s.attemptsAt ρ k + if (σ, run.pc.rank) = (ρ, k) then 1 else 0 := by
      intro n
      simp only [System.attemptsAt, List.map_append, List.count_append, List.map_singleton,
        List.count_singleton, WorkflowPc.rank_of_call hcall, beq_iff_eq]
    by_cases heq : (σ, run.pc.rank) = (ρ, k)
    · cases heq
      exact .inr ⟨run, rfl, hσ, rfl, hcount.trans (by rw [if_pos rfl])⟩
    · refine .inl ⟨hcount.trans (by rw [if_neg heq, Nat.add_zero]), fun run' hρ ha hk => heq ?_⟩
      cases ha
      rw [hσ] at hρ
      cases hρ
      rw [hk]

/-- A run has had at most three attempts at the places behind it, and those it has counted where
it is. -/
theorem attemptsAt_le_allowance (h : machine.Reachable s) : ∀ (ρ : ℕ) (run : Run),
    s.runs[ρ]? = some run → ∀ k, s.attemptsAt ρ k ≤ run.allowance k := by
  refine h.invariant (I := fun s => ∀ (ρ : ℕ) (run : Run), s.runs[ρ]? = some run →
    ∀ k, s.attemptsAt ρ k ≤ run.allowance k) (fun h0 => by subst h0; simp [empty])
    fun {t a u} ht ih hs ρ run' hρ' k => ?_
  have he := effect_of_step hs
  have hco := coherent_of_reachable ht
  rcases Effect.attemptsAt he ρ k with ⟨hcount, hother⟩ | ⟨run, rfl, hρ, rfl, hcount⟩
  · rw [hcount]
    cases he.run hρ' with
    | same hρ => exact ih ρ run' hρ k
    | started outcome hq hreaches hlen =>
      have hnone : t.attemptsAt ρ k = 0 := by
        refine List.count_eq_zero_of_not_mem fun hmem => ?_
        obtain ⟨x, hx, heq⟩ := List.mem_map.mp hmem
        obtain ⟨i, hi⟩ := List.getElem?_of_mem hx
        obtain ⟨run, hρ, -⟩ := hco.attempt i x hi
        have hlt := (List.getElem?_eq_some_iff.mp hρ).1
        have hrun : x.run = ρ := congrArg Prod.fst heq
        omega
      exact hnone.trans_le (Nat.zero_le _)
    | @terminated _ _ _ _ run _ _ _ hρ => exact ih ρ run hρ k
    | @scheduled run _ hρ =>
      have hne := hother run hρ rfl
      have hle := ih ρ run hρ k
      simp only [Run.allowance, if_neg hne] at hle ⊢
      exact hle
    | @moved a run _ hρ hopen hm =>
      refine (ih ρ run hρ k).trans (Run.allowance_mono ?_ ?_)
      · exact (inBudget_of_reachable ht ρ run hρ).attempts_le
      · cases hm with
        | succeeded _ _ _ hrun => exact Run.moves_succeeded hrun
        | failed hout | timedOut hout =>
          obtain ⟨⟨x, call, -, -, hcall, -⟩, -⟩ := hco.outstanding ρ run _ hρ hout
          exact Run.moves_attemptFailed hcall _
  · obtain ⟨run₀, call, hρ₀, -, -, hnew, -⟩ := he.of_schedule
    rw [hρ] at hρ₀
    cases hρ₀
    rw [hρ'] at hnew
    cases hnew
    have hle := ih ρ run hρ run.pc.rank
    simp only [Run.allowance, lt_irrefl, if_false, if_true] at hle ⊢
    omega

/-- **No activity of a run has more than three attempts.** -/
theorem attemptsAt_le (h : machine.Reachable s) (ρ k : ℕ) : s.attemptsAt ρ k ≤ 3 := by
  cases hρ : s.runs[ρ]? with
  | some run =>
    refine (attemptsAt_le_allowance h ρ run hρ k).trans ?_
    have hle := (inBudget_of_reachable h ρ run hρ).attempts_le
    simp only [Run.allowance]
    split_ifs <;> omega
  | none =>
    have hnone : s.attemptsAt ρ k = 0 := by
      refine List.count_eq_zero_of_not_mem fun hmem => ?_
      obtain ⟨x, hx, heq⟩ := List.mem_map.mp hmem
      obtain ⟨i, hi⟩ := List.getElem?_of_mem hx
      obtain ⟨run, hrun, -⟩ := (coherent_of_reachable h).attempt i x hi
      rw [show x.run = ρ from congrArg Prod.fst heq, hρ] at hrun
      cases hrun
    omega

/-! ## Messages -/

omit [UnicodeData] in
theorem length_messagesOf_store (s : System) (m : Message) (subject r : String) :
    (messagesOf { s with stream := s.store m } subject r).length ≤
      (s.messagesOf subject r).length +
        if m.subject = subject ∧ m.payload.reportId = r then 1 else 0 := by
  simp only [messagesOf, store]
  split
  · exact Nat.le_add_right _ _
  · rw [List.filter_append, List.length_append]
    by_cases hm : m.subject = subject ∧ m.payload.reportId = r <;> simp [hm]

omit [UnicodeData] in
/-- An attempt that moves counts no less than before, and one more if it comes to count. -/
theorem countP_setPhase {i : ℕ} {x : Attempt} {p : AttemptPhase} {P : Attempt → Bool}
    (hx : s.attempts[i]? = some x) (hP : P x = true → P { x with phase := p } = true) :
    s.attempts.countP P + (if P x = false ∧ P { x with phase := p } = true then 1 else 0) ≤
      (s.setPhase i p).attempts.countP P := by
  have hcount := Slots.countP_modify (f := fun x => { x with phase := p }) (p := P) hx
  change _ ≤ (s.attempts.modify i fun x => { x with phase := p }).countP P
  cases hold : P x <;> cases hnew : P { x with phase := p } <;> simp [hold, hnew] at hcount hP ⊢
  all_goals omega

omit [UnicodeData] in
theorem hasBegun_of_ne {x : Attempt} (h : x.phase ≠ .running) : x.hasBegun = true := by
  unfold Attempt.hasBegun
  split
  · exact absurd ‹_› h
  · rfl

theorem AttemptStep.ne_running {i : ℕ} {x : Attempt} {p : AttemptPhase}
    (h : AttemptStep s s' i x a p) : p ≠ .running := by
  rintro rfl
  obtain ⟨ρ, activity, phase⟩ := x
  generalize hp' : AttemptPhase.running = p' at h
  cases h with
  | moved hm => cases hm <;> cases hp'
  | marked => cases hp'
  | upserted hc hu hm => cases hm <;> cases hp'
  | published hm hnext =>
    rcases hnext with rfl | ⟨e, rfl⟩
    · cases hm <;> cases hp'
    · cases hp'

/-- Each message of a report was published by an attempt of its own. -/
theorem messages_le_attempts (h : machine.Reachable s) (r : String) :
    (s.messagesOf subjectReportTriaged r).length ≤
        s.attempts.countP (fun x => x.publishes r && x.hasBegun) ∧
      (s.messagesOf subjectQueueRouted r).length ≤
        s.attempts.countP (fun x => x.publishes r && x.isFinished) := by
  refine h.invariant (I := fun s => (s.messagesOf subjectReportTriaged r).length ≤
      s.attempts.countP (fun x => x.publishes r && x.hasBegun) ∧
    (s.messagesOf subjectQueueRouted r).length ≤
      s.attempts.countP (fun x => x.publishes r && x.isFinished))
    (fun h0 => by subst h0; exact ⟨Nat.zero_le _, Nat.zero_le _⟩) fun {t a u} _ ih hs => ?_
  obtain ⟨ihtriaged, ihrouted⟩ := ih
  -- An attempt that executes a statement has begun, and has not finished before.
  have hbegun : ∀ {i : ℕ} {x : Attempt} {p : AttemptPhase}, t.attempts[i]? = some x →
      AttemptStep t u i x a p →
      t.attempts.countP (fun x => x.publishes r && x.hasBegun) +
          (if (x.publishes r && x.hasBegun) = false ∧ x.publishes r = true then 1 else 0) ≤
        (t.setPhase i p).attempts.countP fun x => x.publishes r && x.hasBegun := by
    intro i x p hx hstep
    have hnew : Attempt.hasBegun { x with phase := p } = true := hasBegun_of_ne hstep.ne_running
    have hle := countP_setPhase (p := p) (P := fun x => x.publishes r && x.hasBegun) hx
    simp only [hnew, Bool.and_true] at hle
    exact hle fun hold => (Bool.and_eq_true_iff.mp hold).1
  have hfinished : ∀ {i : ℕ} {x : Attempt} {p : AttemptPhase}, t.attempts[i]? = some x →
      AttemptStep t u i x a p →
      t.attempts.countP (fun x => x.publishes r && x.isFinished) +
          (if x.publishes r = true ∧ Attempt.isFinished { x with phase := p } = true
            then 1 else 0) ≤
        (t.setPhase i p).attempts.countP fun x => x.publishes r && x.isFinished := by
    intro i x p hx hstep
    have hle := countP_setPhase (p := p) (P := fun x => x.publishes r && x.isFinished) hx
    simp only [hstep.not_finished, Bool.and_false, true_and, Bool.and_eq_true] at hle
    exact hle nofun
  have hmoved : ∀ {i : ℕ} {x : Attempt} {p : AttemptPhase}, t.attempts[i]? = some x →
      AttemptStep t u i x a p → (t.messagesOf subjectReportTriaged r).length ≤
          (t.setPhase i p).attempts.countP (fun x => x.publishes r && x.hasBegun) ∧
        (t.messagesOf subjectQueueRouted r).length ≤
          (t.setPhase i p).attempts.countP fun x => x.publishes r && x.isFinished := by
    intro i x p hx hstep
    have := hbegun hx hstep
    have := hfinished hx hstep
    omega
  cases effect_of_step hs with
  | arrived | requestMoved | inserted | reset | started | startFailed | runMoved =>
    exact ⟨ihtriaged, ihrouted⟩
  | scheduled =>
    refine ⟨ihtriaged.trans ?_, ihrouted.trans ?_⟩ <;>
      exact (List.sublist_append_left ..).countP_le
  | attemptMoved hx hm => exact hmoved hx (.moved hm)
  | marked input hx hp hw hresult => exact hmoved hx (.marked input hp hw hresult rfl rfl)
  | upserted ha hx hc hu hm => exact hmoved hx (.upserted hc hu hm)
  | @published i x m next p input hx hm hp =>
    have htriaged := length_messagesOf_store t m subjectReportTriaged r
    have hrouted := length_messagesOf_store t m subjectQueueRouted r
    have hb := hbegun hx (.published hm hp rfl)
    have hf := hfinished hx (.published hm hp rfl)
    obtain ⟨ρ, activity, phase⟩ := x
    refine ⟨htriaged.trans (le_trans ?_ hb), hrouted.trans (le_trans ?_ hf)⟩
    · refine Nat.add_le_add ihtriaged ?_
      cases hm with
      | triaged => simp [Attempt.publishes, Attempt.hasBegun, Payload.reportId]
      | queueRouted => simp [subjectReportTriaged, subjectQueueRouted]
    · refine Nat.add_le_add ihrouted ?_
      cases hm with
      | triaged => simp [subjectReportTriaged, subjectQueueRouted]
      | queueRouted =>
        rcases hp with rfl | ⟨e, rfl⟩ <;>
          simp [Attempt.publishes, Attempt.isFinished, Payload.reportId]

/-- An attempt to publish publishes the report of its run. -/
theorem publisher (h : machine.Reachable s) : ∀ (i : ℕ) (x : Attempt), s.attempts[i]? = some x →
    x.publishes r = true → ∃ run, s.runs[x.run]? = some run ∧ run.reportId = r := by
  refine h.invariant (I := fun s => ∀ (i : ℕ) (x : Attempt), s.attempts[i]? = some x →
    x.publishes r = true → ∃ run, s.runs[x.run]? = some run ∧ run.reportId = r)
    (fun h0 => by subst h0; simp [empty]) fun {t a u} _ ih hs i y hy hr => ?_
  have he := effect_of_step hs
  have hkept : ∀ {ρ : ℕ} {run : Run}, t.runs[ρ]? = some run → run.reportId = r →
      ∃ run', u.runs[ρ]? = some run' ∧ run'.reportId = r := by
    intro ρ run hρ hid
    obtain ⟨run', hρ', hid'⟩ := he.run_kept hρ
    exact ⟨run', hρ', hid'.trans hid⟩
  rcases he.attempt hy with hold | ⟨-, ρ, run, call, -, hρ, -, hcall, rfl⟩ | ⟨x, p, hx, rfl, -⟩
  · obtain ⟨run, hρ, hid⟩ := ih i y hold hr
    exact hkept hρ hid
  · refine hkept hρ ?_
    cases hpc : run.pc <;> rw [hpc] at hcall <;> cases hcall <;>
      simp only [Attempt.publishes, decide_eq_true_eq, Bool.false_eq_true] at hr
    exact hr
  · obtain ⟨run, hρ, hid⟩ := ih i x hx hr
    exact hkept hρ hid

/-- A report has at most three attempts to publish for each of its runs. -/
theorem publishers_le (h : machine.Reachable s) (r : String) {P : Attempt → Bool} :
    s.attempts.countP (fun x => x.publishes r && P x) ≤
      3 * s.runs.countP fun run => run.reportId = r := by
  rw [← Slots.length_numbers (fun run : Run => run.reportId = r)]
  refine Slots.countP_le_mul_length (f := Attempt.run) (fun x hx hr => ?_) fun ρ _ => ?_
  · obtain ⟨i, hi⟩ := List.getElem?_of_mem hx
    obtain ⟨run, hρ, hid⟩ := publisher h i x hi (Bool.and_eq_true_iff.mp hr).1
    exact Slots.mem_numbers.mpr ⟨run, hρ, by simpa using hid⟩
  · refine le_trans ?_ (attemptsAt_le h ρ 7)
    rw [attemptsAt, List.count, List.countP_map]
    refine List.countP_mono_left fun x _ hx => ?_
    simp only [Bool.and_eq_true, decide_eq_true_eq] at hx
    obtain ⟨⟨hr, -⟩, hρ⟩ := hx
    have hrank : x.activity.rank = 7 := by
      obtain ⟨σ, activity, phase⟩ := x
      cases activity <;> first | rfl | cases hr
    simp [hρ, hrank]

/-! ## The bound -/

/-- **The work for a report is bounded by the requests about it.** In every reachable state, with
any starts, attempts and messages late: a report has one open run at most; it has no more runs
than one and one for each request to reprocess it; no run has more than three attempts of an
activity; and the stream holds no more than three messages of the report on a subject for each of
its runs. -/
theorem work_bounded (h : machine.Reachable s) (r : String) :
    (s.runs.countP fun run => run.reportId = r && run.isOpen) ≤ 1 ∧
    (s.runs.countP fun run => run.reportId = r) ≤
      1 + s.requests.countP (Request.reprocesses r) ∧
    (∀ ρ k, s.attemptsAt ρ k ≤ 3) ∧
    ∀ subject, (s.messagesOf subject r).length ≤ 3 * s.runs.countP fun run => run.reportId = r := by
  refine ⟨open_le h r, runs_le h r, attemptsAt_le h, fun subject => ?_⟩
  obtain ⟨htriaged, hrouted⟩ := messages_le_attempts h r
  by_cases hmem : s.messagesOf subject r = []
  · rw [hmem]
    exact Nat.zero_le _
  · obtain ⟨m, hm⟩ := List.exists_mem_of_ne_nil _ hmem
    obtain ⟨hstored, hm⟩ := List.mem_filter.mp hm
    obtain ⟨rfl, -⟩ : m.subject = subject ∧ _ := by simpa using hm
    obtain ⟨-, -, -, hpayload⟩ := (causal_of_reachable h).messages m hstored
    cases hp : m.payload with
    | triaged e =>
      rw [hp] at hpayload
      rw [hpayload.1]
      exact htriaged.trans (publishers_le h r)
    | queueRouted e =>
      rw [hp] at hpayload
      rw [hpayload.1]
      exact hrouted.trans (publishers_le h r)

omit [UnicodeData] in
/-- A retry after the duplicate window stores its message again. -/
theorem work_bounded_retried : ∃ (_ : UnicodeData) (s : System), machine.Reachable s ∧
    (s.messagesOf subjectReportTriaged "r").length = 2 ∧
    s.attemptsAt 0 7 = 2 ∧ 2 ≤ 3 * s.runs.countP fun run => run.reportId = "r" := by
  let _ := asciiUnicode
  have hrun : ((machine.run empty (retriedPublish (200 * 1000000))).any fun s =>
      (s.messagesOf subjectReportTriaged "r").length = 2 && s.attemptsAt 0 7 = 2) = true := by
    decide +kernel
  obtain ⟨s, hs, hp⟩ := Machine.Along.exists_of_runIf rfl hrun
  simp only [Bool.and_eq_true, decide_eq_true_eq] at hp
  refine ⟨_, s, hs, hp.1, hp.2, ?_⟩
  have hle := (work_bounded hs "r").2.2.2 subjectReportTriaged
  rwa [hp.1] at hle

end
end System

end ReportTriage

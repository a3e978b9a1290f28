import ReportTriage.StatusOrder

/-!
# The last run of a report

Starting a run terminates the one before, but not its attempts: they go on to their commits, and
so does an attempt its own run has stopped waiting for. What keeps these late marks from the
status of the report is only when they commit. One does no harm while the last run still has its
own final mark ahead of it, because that mark is written whatever is stored; it does once that
mark is committed, or has loaded the very status it is about to write.

## Main definitions

* `System.IsLastRun`, `System.IsLatest` — the run of a report that was started last, and the
  latest attempt of a run.
* `System.late`, `System.decided` — the attempts nobody waits for, and what the last run has made
  up its mind on.
* `System.startsSucceed`, `System.lateMarksHarmless` — the runs considered, and the steps among
  them that do not go wrong.
* `System.Prevails` — what holds of the last run, and of its marks.
* `System.last_run_wins` — the status is the outcome of the last run.
* `System.overwritten_outcome` — a mark of a replaced run that commits late.
-/

namespace ReportTriage

open WriteBack (column)

/-- The status a run leaves. The error of `mark_report_failed_activity` itself leaves none. -/
def WorkflowPc.outcome : WorkflowPc → Option ReportStatus
  | returned _ => some .classified
  | raised _ => some .failed
  | _ => none

theorem WorkflowPc.isFinal_outcome {pc : WorkflowPc} {st : ReportStatus}
    (h : pc.outcome = some st) : st.isFinal = true := by
  cases pc <;> cases h <;> rfl

theorem WorkflowPc.outcome_of_call {pc : WorkflowPc} {r : String} {call : ActivityCall}
    (h : pc.call r = some call) : pc.outcome = none := by
  cases pc <;> first | rfl | cases h

/-- A run gets its outcome from the activity that marks the report with it. -/
theorem WorkflowPc.outcome_of_resume {pc pc' : WorkflowPc} {r : String} {v : Value}
    {call : ActivityCall} {st : ReportStatus} (h : pc.resume r v = some pc')
    (hcall : pc.call r = some call) (hout : pc'.outcome = some st) :
    call.activity.statusWrite = some (r, st) := by
  cases pc <;> cases hcall <;> cases v <;> cases h <;> cases hout <;> rfl

theorem Run.outcome_attemptFailed {run : Run} {call : ActivityCall} {e : Failure}
    (h : run.pc.call run.reportId = some call) : (run.attemptFailed e).pc.outcome = none := by
  simp only [attemptFailed, h]
  split
  · exact WorkflowPc.outcome_of_call h
  · cases hpc : run.pc <;> rw [hpc] at h <;> first | rfl | cases h

/-- The final status of the report that the attempt has written, or has loaded to write it
again. -/
def Attempt.decision (x : Attempt) (r : String) : Option ReportStatus :=
  match x.activity.statusWrite, x.phase with
  | some (r', st), .loaded row =>
    if r' = r ∧ st.isFinal = true ∧ row.status = st.value then some st else none
  | some (r', st), .finished (.ok _) => if r' = r ∧ st.isFinal = true then some st else none
  | _, _ => none

theorem Attempt.decision_eq_some {x : Attempt} {r : String} {st : ReportStatus} :
    x.decision r = some st ↔ x.activity.statusWrite = some (r, st) ∧ st.isFinal = true ∧
      ((∃ row, x.phase = .loaded row ∧ row.status = st.value) ∨
        ∃ v, x.phase = .finished (.ok v)) := by
  unfold decision
  split
  · rename_i r' st' row hw hp
    rw [hw, hp, Option.ite_none_right_eq_some]
    constructor
    · rintro ⟨⟨rfl, hfinal, hrow⟩, heq⟩
      cases heq
      exact ⟨rfl, hfinal, .inl ⟨row, rfl, hrow⟩⟩
    · rintro ⟨heq, hfinal, ⟨row', hrow', hrow⟩ | ⟨v, hv⟩⟩
      · cases heq
        cases hrow'
        exact ⟨⟨rfl, hfinal, hrow⟩, rfl⟩
      · cases hv
  · rename_i r' st' v hw hp
    rw [hw, hp, Option.ite_none_right_eq_some]
    constructor
    · rintro ⟨⟨rfl, hfinal⟩, heq⟩
      cases heq
      exact ⟨rfl, hfinal, .inr ⟨v, rfl⟩⟩
    · rintro ⟨heq, hfinal, -⟩
      cases heq
      exact ⟨⟨rfl, hfinal⟩, rfl⟩
  · rename_i hloaded hfinished
    refine ⟨nofun, ?_⟩
    rintro ⟨hw, -, ⟨row, hp, -⟩ | ⟨v, hp⟩⟩
    · exact (hloaded _ _ row hw hp).elim
    · exact (hfinished _ _ v hw hp).elim

namespace System

/-- Run `ρ` is the one of report `r` that was started last. -/
def IsLastRun (s : System) (r : String) (ρ : ℕ) : Prop :=
  (∃ run, s.runs[ρ]? = some run ∧ run.reportId = r) ∧
    ∀ (σ : ℕ) (run : Run), s.runs[σ]? = some run → run.reportId = r → σ ≤ ρ

/-- Attempt `i` is the latest of run `ρ`. -/
def IsLatest (s : System) (ρ i : ℕ) : Prop :=
  ∀ (j : ℕ) (y : Attempt), s.attempts[j]? = some y → y.run = ρ → j ≤ i

/-- A run of the report has been started after run `ρ`. -/
def replaced (s : System) (r : String) (ρ : ℕ) : Bool :=
  (s.runs.drop (ρ + 1)).any fun run => run.reportId = r

/-- An attempt of run `ρ` has been scheduled after attempt `i`. -/
def superseded (s : System) (ρ i : ℕ) : Bool :=
  (s.attempts.drop (i + 1)).any fun x => x.run = ρ

/-- Nobody waits for attempt `i`, of a run `ρ` of the report. -/
def late (s : System) (r : String) (ρ i : ℕ) : Bool := s.replaced r ρ || s.superseded ρ i

/-- The latest attempt of the last run of the report has committed another final status than this
one, or has loaded such a status to write it again. -/
def decided (s : System) (r : String) (status : ReportStatus) : Bool :=
  s.attempts.zipIdx.any fun (x, i) =>
    !s.late r x.run i && (x.decision r).any fun st => st ≠ status

/-- The starts of the report are accepted, and a request comes from its commit of `queued` to its
start. -/
def startsSucceed (r : String) (s : System) : Action → Bool
  | .commitReset q _ raises => !raises || s.requests[q]?.all fun x => match x.pc with
    | .reset loaded => loaded.id ≠ r
    | _ => true
  | .start q outcome => outcome = .accepted || !decide (s.InWindow r q)
  | .loadStartFailed q | .commitStartFailed q _ | .dropStartFailed q | .stop q =>
    !decide (s.InWindow r q)
  | _ => true

/-- A late attempt commits a status of the report only if it is the one it has loaded, or the last
run has not decided on another. -/
def lateMarksHarmless (r : String) (s : System) : Action → Bool
  | .exec i input => match s.attempts[i]?, s.statusWrite (.exec i input) with
    | some x, some (loaded, status) => loaded.id ≠ r || loaded.status = status.value ||
      !s.late r x.run i || !s.decided r status
    | _, _ => true
  | _ => true

/-- No attempt of run `ρ` outlasts its timeout. -/
def inTime (ρ : ℕ) : Action → Bool
  | .timeout σ => σ ≠ ρ
  | _ => true

variable {s s' : System} {a : Action} {r : String} {ρ i : ℕ}

theorem replaced_iff : s.replaced r ρ = true ↔
    ∃ (σ : ℕ) (run : Run), ρ < σ ∧ s.runs[σ]? = some run ∧ run.reportId = r := by
  simp only [replaced, Slots.any_drop_iff, decide_eq_true_eq]

theorem isLastRun_iff : s.IsLastRun r ρ ↔
    (∃ run, s.runs[ρ]? = some run ∧ run.reportId = r) ∧ s.replaced r ρ = false := by
  refine and_congr_right fun _ => ?_
  rw [← Bool.not_eq_true, replaced_iff]
  constructor
  · rintro h ⟨σ, run, hlt, hσ, hid⟩
    exact absurd (h σ run hσ hid) (by omega)
  · intro h σ run hσ hid
    by_contra hlt
    exact h ⟨σ, run, by omega, hσ, hid⟩

theorem isLatest_iff : s.IsLatest ρ i ↔ s.superseded ρ i = false := by
  rw [← Bool.not_eq_true, superseded, Slots.any_drop_iff]
  constructor
  · rintro h ⟨j, y, hlt, hy, hrun⟩
    exact absurd (h j y hy (of_decide_eq_true hrun)) (by omega)
  · intro h j y hy hrun
    by_contra hlt
    exact h ⟨j, y, by omega, hy, decide_eq_true hrun⟩

theorem IsLatest.eq (h : s.IsLatest ρ i) {j : ℕ} {x y : Attempt} (hx : s.attempts[i]? = some x)
    (hρ : x.run = ρ) (h' : s.IsLatest ρ j) (hy : s.attempts[j]? = some y) (hρ' : y.run = ρ) :
    i = j :=
  Nat.le_antisymm (h' i x hx hρ) (h j y hy hρ')

/-- The last run of a report is not replaced, and every other one is. -/
theorem IsLastRun.eq_of_not_replaced (h : s.IsLastRun r ρ) {σ : ℕ} {run : Run}
    (hσ : s.runs[σ]? = some run) (hid : run.reportId = r) (hnot : s.replaced r σ = false) :
    σ = ρ := by
  obtain ⟨⟨run', hρ, hid'⟩, hlast⟩ := h
  have hle := (isLastRun_iff.mpr ⟨⟨run, hσ, hid⟩, hnot⟩).2 ρ run' hρ hid'
  have := hlast σ run hσ hid
  omega

/-- A decision of the last run is one against every other status. -/
theorem IsLastRun.eq_of_not_decided (h : s.IsLastRun r ρ) {x : Attempt} {st status : ReportStatus}
    (hx : s.attempts[i]? = some x) (hrun : x.run = ρ) (hlatest : s.IsLatest ρ i)
    (hdec : x.decision r = some st) (hnot : s.decided r status = false) : st = status := by
  have hmem : (x, i) ∈ s.attempts.zipIdx := List.mk_mem_zipIdx_iff_getElem?.mpr hx
  have hx' := List.any_eq_false.mp hnot _ hmem
  by_contra hne
  exact hx' (by simp [late, hrun, (isLastRun_iff.mp h).2, isLatest_iff.mp hlatest, hdec, hne])

/-- What holds of the last run of a report, as long as no window is open on the report. -/
structure Prevails (r : String) (ρ : ℕ) (s : System) : Prop where
  /-- What the run has decided on is stored. -/
  decision : ∀ (i : ℕ) (x : Attempt) (st : ReportStatus), s.attempts[i]? = some x → x.run = ρ →
    s.IsLatest ρ i → x.decision r = some st → s.status r = some st.value
  /-- The outcome of the run is what it has decided on. -/
  ended : ∀ (run : Run) (st : ReportStatus), s.runs[ρ]? = some run → run.pc.outcome = some st →
    ∃ (i : ℕ) (x : Attempt), s.attempts[i]? = some x ∧ x.run = ρ ∧ s.IsLatest ρ i ∧
      x.isFinished = true ∧ x.decision r = some st

theorem Prevails.status (h : Prevails r ρ s) {run : Run} {st : ReportStatus}
    (hρ : s.runs[ρ]? = some run) (hout : run.pc.outcome = some st) :
    s.status r = some st.value := by
  obtain ⟨i, x, hx, hrun, hlatest, -, hdec⟩ := h.ended run st hρ hout
  exact h.decision i x st hx hrun hlatest hdec

section
variable [UnicodeData]

/-! ### What a step writes -/

/-- The step is the commit of a mark: of the latest attempt of the last run, or of another one
that the run has not decided against. -/
def Written (s s' : System) (r : String) (ρ : ℕ) (a : Action) : Prop :=
  ∃ i x input loaded status, a = .exec i input ∧ s.attempts[i]? = some x ∧
    x.phase = .loaded loaded ∧ x.activity.statusWrite = some (r, status) ∧
    s'.status r = some status.value ∧
    ((x.run = ρ ∧ s.IsLatest ρ i) ∨ s.decided r status = false)

/-- While no window opens on the report, its status changes by such a commit only. -/
theorem IsLastRun.write (hlast : s.IsLastRun r ρ) (hco : Coherent s) (he : Effect s a s')
    (hstarts : s.startsSucceed r a = true) (hmarks : s.lateMarksHarmless r a = true)
    (hclosed : s'.windowOpen r = false) (hsome : (s.status r).isSome) :
    s'.status r = s.status r ∨ Written s s' r ρ a := by
  rcases he.status r with hsame | ⟨q, e, row, raises, -, -, -, hnone, -⟩ |
    ⟨loaded, status, hw, rfl, hcolumn⟩
  · exact .inl hsame
  · rw [hnone] at hsome
    cases hsome
  rcases statusWrite_eq_some hw with ⟨q, e, now, raises, rfl, hq, -⟩ |
    ⟨q, e, now, cause, rfl, hq, -⟩ | ⟨i, x, input, r, rfl, hx, hp, hwrite⟩
  · -- A reset opens a window.
    obtain rfl : raises = false := by simpa [startsSucceed, hq] using hstarts
    have hopen : s'.windowOpen loaded.id = true :=
      windowOpen_iff.mpr ⟨q, he.inWindow_of_commitReset hq⟩
    rw [hclosed] at hopen
    cases hopen
  · have hwindow : s.InWindow loaded.id q := ⟨e, _, hq, rfl⟩
    simp [startsSucceed, hwindow] at hstarts
  · obtain rfl := hco.loaded_id hx hp hwrite
    by_cases hdirty : loaded.status = status.value
    · exact .inl (he.status_of_clean hw hdirty)
    refine .inr ⟨i, x, input, loaded, status, rfl, hx, hp, hwrite,
      he.status_of_dirty hco hw hdirty, ?_⟩
    obtain ⟨run, hrun, hid⟩ := hco.attempt i x hx
    rcases (by simpa [lateMarksHarmless, hx, hw, hdirty] using hmarks :
      s.late loaded.id x.run i = false ∨ s.decided loaded.id status = false) with hdue | hnot
    · obtain ⟨hreplaced, hsuperseded⟩ := Bool.or_eq_false_iff.mp hdue
      obtain rfl := hlast.eq_of_not_replaced hrun (hid _ _ hwrite).symm hreplaced
      exact .inl ⟨rfl, isLatest_iff.mpr hsuperseded⟩
    · exact .inr hnot

/-- The windows of the report end with the start of another run. -/
theorem windowOpen_of_step (he : Effect s a s') (hco : Coherent s)
    (hstarts : s.startsSucceed r a = true) (h : s.windowOpen r = true) :
    s'.windowOpen r = true ∨ s'.runs[s.runs.length]? = some (Run.start r) := by
  obtain ⟨q, hwin⟩ := windowOpen_iff.mp h
  rcases he.inWindow hco hwin with hstay | ⟨e, held, rfl, hq⟩ |
    ⟨now, e, loaded, cause, rfl, -⟩ | rfl | rfl
  · exact .inl (windowOpen_iff.mpr ⟨q, hstay⟩)
  · obtain ⟨pc', -, -, hruns, -⟩ := he.of_start hq
    refine .inr ?_
    rw [hruns]
    simp [StartOutcome.reachesServer, startWorkflow]
  · simp [startsSucceed, hwin] at hstarts
  · simp [startsSucceed, hwin] at hstarts
  · simp [startsSucceed, hwin] at hstarts

/-- A run that was there before the step and is the last one now was the last one then, and
no window was open on its report. -/
theorem IsLastRun.of_step (hlast : s'.IsLastRun r ρ) (hco : Coherent s) (he : Effect s a s')
    (hstarts : s.startsSucceed r a = true) (hclosed : s'.windowOpen r = false) {run : Run}
    (hρ : s.runs[ρ]? = some run) : s.IsLastRun r ρ ∧ s.windowOpen r = false := by
  obtain ⟨⟨run', hρ', hid'⟩, hle⟩ := hlast
  obtain ⟨run'', hρ'', hid⟩ := he.run_kept hρ
  rw [hρ'] at hρ''
  cases hρ''
  refine ⟨⟨⟨run, hρ, hid.symm.trans hid'⟩, fun σ run₁ hσ hid₁ => ?_⟩, ?_⟩
  · obtain ⟨run₂, hσ', hid₂⟩ := he.run_kept hσ
    exact hle σ run₂ hσ' (hid₂.trans hid₁)
  · by_contra hopen
    rcases windowOpen_of_step he hco hstarts (Bool.eq_true_of_not_eq_false hopen) with hstay | hnew
    · rw [hclosed] at hstay
      cases hstay
    · have := hle _ _ hnew rfl
      have := (List.getElem?_eq_some_iff.mp hρ).1
      omega

/-! ### One step -/

omit [UnicodeData] in
/-- A run that has just been started has no attempts. -/
theorem Prevails.of_new (hρ : s'.runs[ρ]? = some (Run.start r))
    (hnone : ∀ (i : ℕ) (x : Attempt), s'.attempts[i]? = some x → x.run ≠ ρ) :
    Prevails r ρ s' where
  decision i x _ hx hrun := (hnone i x hx hrun).elim
  ended run st hrun hout := by
    rw [hρ] at hrun
    cases hrun
    cases hout

/-- An attempt that is the latest after a step, and was there before, was the latest then. -/
theorem IsLatest.of_step (h : s'.IsLatest ρ i) (he : Effect s a s') : s.IsLatest ρ i := by
  intro j y hy hrun
  obtain ⟨p, hy'⟩ := he.attempt_kept hy
  exact h j _ hy' hrun

/-- A decision stays what is stored, unless the attempt that made it takes it further. -/
theorem Prevails.status_kept (h : Prevails r ρ s) (he : Effect s a s') (hlast : s.IsLastRun r ρ)
    (hwrite : (s.status r).isSome → s'.status r = s.status r ∨ Written s s' r ρ a) {x : Attempt}
    {st : ReportStatus} (hx : s.attempts[i]? = some x) (hrun : x.run = ρ)
    (hlatest : s.IsLatest ρ i) (hdec : x.decision r = some st) (hx' : s'.attempts[i]? = some x) :
    s'.status r = some st.value := by
  have hst := h.decision i x st hx hrun hlatest hdec
  rcases hwrite (by rw [hst]; rfl) with hsame |
    ⟨j, y, input, loaded, status, rfl, hy, hp, hw, hnew, ⟨hyrun, hylatest⟩ | hnot⟩
  · exact hsame.trans hst
  · -- The latest attempt is this one, and it has not moved.
    obtain rfl := hlatest.eq hx hrun hylatest hy hyrun
    rw [hx, Option.some.injEq] at hy
    subst hy
    obtain ⟨result, -, hdone, -⟩ := he.of_mark hx hp hw
    rw [hx', Option.some.injEq] at hdone
    rw [hdone] at hp
    cases hp
  · rw [hnew, hlast.eq_of_not_decided hx hrun hlatest hdec hnot]

theorem Prevails.decision_step (h : Prevails r ρ s) (hco : Coherent s) (he : Effect s a s')
    (hlast : s.IsLastRun r ρ)
    (hwrite : (s.status r).isSome → s'.status r = s.status r ∨ Written s s' r ρ a) {y : Attempt}
    {st : ReportStatus} (hy : s'.attempts[i]? = some y) (hrun : y.run = ρ)
    (hlatest : s'.IsLatest ρ i) (hdec : y.decision r = some st) :
    s'.status r = some st.value := by
  obtain ⟨hw, hfinal, hphase⟩ := Attempt.decision_eq_some.mp hdec
  rcases he.attempt hy with hold | ⟨-, σ, run, call, -, -, -, -, rfl⟩ | ⟨x, p, hx, rfl, hstep⟩
  · exact h.status_kept he hlast hwrite hold hrun (hlatest.of_step he) hdec hy
  · rcases hphase with ⟨row, hp, -⟩ | ⟨v, hp⟩ <;> cases hp
  · rcases hphase with ⟨row, hp, hrow⟩ | ⟨v, hp⟩
    · -- It has just loaded the status, which is the one stored.
      obtain rfl : p = .loaded row := hp
      obtain ⟨⟨input, rfl⟩, hrunning, ⟨status, hw'⟩, hget⟩ := hstep.to_loaded
      obtain rfl : row.id = r := by
        rw [show x.activity.statusWrite = some (r, st) from hw] at hw'
        cases hw'
        rfl
      have hst : s.status row.id = some st.value := by
        rw [System.status, hget, ← hrow]
        rfl
      rcases hwrite (by rw [hst]; rfl) with hsame | ⟨j, z, input', loaded, status, heq, hz, hzp, -⟩
      · exact hsame.trans hst
      · cases heq
        rw [hx] at hz
        cases hz
        rw [hrunning] at hzp
        cases hzp
    · -- It has just committed, and the column is left out only if it was decided before.
      obtain rfl : p = .finished (.ok v) := hp
      obtain ⟨input, loaded, rfl, hxp, -⟩ := hstep.to_marked hw
      obtain rfl : loaded.id = r := hco.loaded_id hx hxp hw
      have hcommits : s.statusWrite (.exec i input) = some (loaded, st) :=
        statusWrite_exec_loaded hx hxp hw
      by_cases hown : loaded.status = st.value
      · have hst := h.decision i x st hx hrun (hlatest.of_step he)
          (Attempt.decision_eq_some.mpr ⟨hw, hfinal, .inl ⟨loaded, hxp, hown⟩⟩)
        exact (he.status_of_clean hcommits hown).trans hst
      · exact he.status_of_dirty hco hcommits hown

theorem Prevails.ended_step (h : Prevails r ρ s) (hco : Coherent s) (he : Effect s a s')
    (hlast : s.IsLastRun r ρ) {run' : Run} {st : ReportStatus} (hρ' : s'.runs[ρ]? = some run')
    (hout : run'.pc.outcome = some st) :
    ∃ (i : ℕ) (x : Attempt), s'.attempts[i]? = some x ∧ x.run = ρ ∧ s'.IsLatest ρ i ∧
      x.isFinished = true ∧ x.decision r = some st := by
  -- A run that had its outcome gets nothing scheduled.
  have hkeep : ∀ run, s.runs[ρ]? = some run → run.pc = run'.pc →
      ∃ (i : ℕ) (x : Attempt), s'.attempts[i]? = some x ∧ x.run = ρ ∧ s'.IsLatest ρ i ∧
        x.isFinished = true ∧ x.decision r = some st := by
    intro run hρ hpc
    obtain ⟨i, x, hx, hrun, hlatest, hfinished, hdec⟩ := h.ended run st hρ (hpc ▸ hout)
    refine ⟨i, x, he.attempt_finished hx hfinished, hrun, ?_, hfinished, hdec⟩
    intro j z hz hzrun
    rcases he.attempt hz with hold | ⟨-, σ, run₀, call, rfl, hσ, -, hcall, rfl⟩ | ⟨y, p, hy, rfl, -⟩
    · exact hlatest j z hold hzrun
    · obtain rfl : σ = ρ := hzrun
      rw [hρ] at hσ
      cases hσ
      rw [← hpc, WorkflowPc.outcome_of_call hcall] at hout
      cases hout
    · exact hlatest j y hy hzrun
  cases he.run hρ' with
  | same hρ => exact hkeep run' hρ rfl
  | started => cases hout
  | @terminated _ _ _ _ run _ _ _ hρ => exact hkeep run hρ rfl
  | scheduled hρ hopen hcall =>
    rw [WorkflowPc.outcome_of_call hcall] at hout
    cases hout
  | @moved a run _ hρ hopen hm hattempts =>
    cases hm with
    | @succeeded i x v _ hwaits hx hp hrun =>
      obtain ⟨⟨y, call, hy, hyrun, hcall, hact⟩, hlatest⟩ := hco.outstanding ρ run i hρ hwaits
      rw [hx] at hy
      cases hy
      obtain ⟨pc', hresume, rfl⟩ := Option.map_eq_some_iff.mp hrun
      have hid : run.reportId = r := by
        obtain ⟨⟨run₀, hρ₀, hid⟩, -⟩ := hlast
        rw [hρ] at hρ₀
        cases hρ₀
        exact hid
      have hw : x.activity.statusWrite = some (r, st) := by
        rw [hact, ← hid]
        exact WorkflowPc.outcome_of_resume hresume hcall hout
      refine ⟨i, x, hattempts ▸ hx, hyrun, fun j z hz => hlatest j z (hattempts ▸ hz), ?_,
        Attempt.decision_eq_some.mpr ⟨hw, WorkflowPc.isFinal_outcome hout, .inr ⟨v, hp⟩⟩⟩
      rw [Attempt.isFinished, hp]
    | failed hwaits | timedOut hwaits =>
      obtain ⟨⟨y, call, -, -, hcall, -⟩, -⟩ := hco.outstanding ρ run _ hρ hwaits
      rw [Run.outcome_attemptFailed hcall] at hout
      cases hout

/-- **One step** of the last run. -/
theorem Prevails.step (h : Prevails r ρ s) (hco : Coherent s) (he : Effect s a s')
    (hlast : s.IsLastRun r ρ)
    (hwrite : (s.status r).isSome → s'.status r = s.status r ∨ Written s s' r ρ a) :
    Prevails r ρ s' where
  decision _ _ _ hx hrun hlatest hdec := h.decision_step hco he hlast hwrite hx hrun hlatest hdec
  ended _ _ hρ hout := h.ended_step hco he hlast hρ hout

/-- **The last run prevails**, if it was started on the way. -/
theorem prevails_of_path {s₀ : System} (hs₀ : machine.Reachable s₀)
    (hp : machine.Path (fun s a => s.startsSucceed r a && s.lateMarksHarmless r a) s₀ s)
    (hnew : s₀.runs.length ≤ ρ) (hlast : s.IsLastRun r ρ) (hclosed : s.windowOpen r = false) :
    Prevails r ρ s := by
  refine hp.invariant (I := fun s => s.IsLastRun r ρ → s.windowOpen r = false → Prevails r ρ s)
    ?_ ?_ hlast hclosed
  · rintro ⟨⟨run, hρ, -⟩, -⟩
    have := (List.getElem?_eq_some_iff.mp hρ).1
    omega
  · intro t a u hpath ih hok hstep hlast' hclosed'
    rw [Bool.and_eq_true] at hok
    have ht := hs₀.path (hpath.mono fun _ _ _ => trivial)
    have he := effect_of_step hstep
    have hco := coherent_of_reachable ht
    cases hρ : t.runs[ρ]? with
    | some run =>
      obtain ⟨hlast, hclosed⟩ := hlast'.of_step hco he hok.1 hclosed' hρ
      exact (ih hlast hclosed).step hco he hlast (hlast.write hco he hok.1 hok.2 hclosed')
    | none =>
      obtain ⟨⟨run', hρ', hid⟩, -⟩ := hlast'
      obtain rfl : run' = Run.start r := by
        cases he.run hρ' with
        | started => rw [← hid]; rfl
        | same hρ₁ | terminated _ _ _ hρ₁ | scheduled hρ₁ | moved hρ₁ =>
          rw [hρ] at hρ₁
          cases hρ₁
      refine .of_new hρ' fun i x hx hxrun => ?_
      -- An attempt belongs to a run, and a step that starts a run schedules no attempt.
      rcases he.attempt hx with hold | ⟨-, σ, run, call, -, hσ, -, -, rfl⟩ | ⟨y, p, hy, rfl, -⟩
      · obtain ⟨run, hrun, -⟩ := hco.attempt i x hold
        rw [hxrun, hρ] at hrun
        cases hrun
      · obtain rfl : σ = ρ := hxrun
        rw [hρ] at hσ
        cases hσ
      · obtain ⟨run, hrun, -⟩ := (coherent_of_reachable ht).attempt i y hy
        rw [show y.run = ρ from hxrun, hρ] at hrun
        cases hrun

/-- **The last run wins, when late marks do no harm.** From any reachable state, along steps in
which the starts of report `r` succeed and a late mark commits only while the last run has not
decided on another status (or leaves the column out): if the run of `r` started last was started
on the way, and no request is between its commit of `queued` and its start, then the stored
status is its outcome. And from any reachable state, a mark leaves the stored status alone if and
only if it is the one the attempt has loaded, or the one that is stored. -/
theorem last_run_wins {s₀ : System} (hs₀ : machine.Reachable s₀)
    (hp : machine.Path (fun s a => s.startsSucceed r a && s.lateMarksHarmless r a) s₀ s) :
    (∀ (ρ : ℕ) (run : Run) (st : ReportStatus), s.runs[ρ]? = some run → s.IsLastRun r ρ →
      s₀.runs.length ≤ ρ → s.windowOpen r = false → run.pc.outcome = some st →
      s.status r = some st.value) ∧
    ∀ (i : ℕ) (input : Input) (s' : System) (loaded : Report) (status : ReportStatus),
      machine.step s (.exec i input) = some s' →
      s.statusWrite (.exec i input) = some (loaded, status) →
      (s'.status loaded.id = s.status loaded.id ↔
        loaded.status = status.value ∨ s.status loaded.id = some status.value) := by
  refine ⟨fun ρ run st hρ hlast hnew hclosed hout =>
    (prevails_of_path hs₀ hp hnew hlast hclosed).status hρ hout, ?_⟩
  intro i input s' loaded status hstep hw
  have hs := hs₀.path (hp.mono fun _ _ _ => trivial)
  have he : Effect s (.exec i input) s' := effect_of_step hstep
  obtain ⟨row, hrow⟩ :=
    Option.isSome_iff_exists.mp ((coherent_of_reachable hs).isSome_of_statusWrite hw)
  have hstored : s.status loaded.id = some row.status := by rw [System.status, hrow]; rfl
  rw [he.status_of_statusWrite hw, hstored, Option.map_some, Option.some.injEq,
    Option.some.injEq]
  unfold column
  split
  · rename_i hown
    exact ⟨fun _ => .inl hown.symm, fun _ => rfl⟩
  · rename_i hdirty
    exact ⟨fun heq => .inr heq.symm, fun h => (h.resolve_left (Ne.symm hdirty)).symm⟩

end

/-- The first run of a report is caught with a mark under way by a reprocess, whose run ends
before the mark commits. -/
def lateMarkOfReplaced : List Action :=
  Sample.create 0 "r" ++ Sample.activity 0 0 1 ++ [.schedule 0, .exec 1 (Sample.input 2)] ++
    [.arrive (.reprocess "r"), .loadForReprocess 1, .commitReset 1 3 false, .start 1 .accepted] ++
    Sample.cleanRun 1 2

/-- The last run of a report reprocessed while its first run is under way, between two marks. -/
theorem last_run_wins_reprocessed : ∃ (_ : UnicodeData) (s : System),
    machine.Path (fun s a => s.startsSucceed "r" a && s.lateMarksHarmless "r" a) empty s ∧
    s.IsLastRun "r" 1 ∧ s.status "r" = some ReportStatus.classified.value := by
  let _ := asciiUnicode
  have hrun : ((machine.runIf (fun s a => s.startsSucceed "r" a && s.lateMarksHarmless "r" a) empty
      (Sample.create 0 "r" ++ Sample.activity 0 0 1 ++ Sample.activity 0 1 2 ++
        [.arrive (.reprocess "r"), .loadForReprocess 1, .commitReset 1 3 false,
          .start 1 .accepted] ++ Sample.cleanRun 1 2)).any fun s =>
      !s.replaced "r" 1 && !s.windowOpen "r" && s.runs[1]?.any fun run =>
        run.reportId = "r" && run.pc.outcome = some .classified) = true := by decide +kernel
  obtain ⟨s, ⟨s₀, rfl, hpath⟩, hp⟩ := Machine.Along.exists_of_runIf rfl hrun
  simp only [Bool.and_eq_true, Bool.not_eq_true'] at hp
  obtain ⟨⟨hlast, hclosed⟩, hrun⟩ := hp
  obtain ⟨run, hρ, hrun⟩ := (Option.any_eq_true _ _).mp hrun
  simp only [Bool.and_eq_true, decide_eq_true_eq] at hrun
  have hlast : s.IsLastRun "r" 1 := isLastRun_iff.mpr ⟨⟨run, hρ, hrun.1⟩, hlast⟩
  exact ⟨_, s, hpath, hlast, (last_run_wins (.init rfl) hpath).1 1 run _ hρ hlast (Nat.zero_le _)
    hclosed hrun.2⟩

/-- The outcome of the last run can be overwritten: every run is closed, every attempt has
finished, those of the last run in time, the last run has returned, and the report is in
`processing`. -/
theorem overwritten_outcome : ¬ ∀ (_ : UnicodeData) (s : System) (r : String) (ρ : ℕ) (run : Run)
    (st : ReportStatus), machine.Along (fun s a => s.startsSucceed r a && inTime ρ a) s →
    (∀ run ∈ s.runs, run.isOpen = false) → (∀ x ∈ s.attempts, x.isFinished = true) →
    s.runs[ρ]? = some run → s.IsLastRun r ρ → s.windowOpen r = false →
    run.pc.outcome = some st → s.status r = some st.value := by
  intro h
  let _ := asciiUnicode
  have hrun : ((machine.runIf (fun s a => s.startsSucceed "r" a && inTime 1 a) empty
      (lateMarkOfReplaced ++ [.exec 1 (Sample.input 4)])).any fun s =>
      (s.runs.all fun run => !run.isOpen) && s.attempts.all Attempt.isFinished &&
        !s.replaced "r" 1 && !s.windowOpen "r" &&
        s.status "r" = some ReportStatus.processing.value && s.runs[1]?.any fun run =>
          run.reportId = "r" && run.pc.outcome = some .classified) = true := by decide +kernel
  obtain ⟨s, hs, hp⟩ := Machine.Along.exists_of_runIf rfl hrun
  simp only [Bool.and_eq_true, Bool.not_eq_true', List.all_eq_true, decide_eq_true_eq] at hp
  obtain ⟨⟨⟨⟨⟨hruns, hattempts⟩, hlast⟩, hclosed⟩, hst⟩, hrun⟩ := hp
  obtain ⟨run, hρ, hrun⟩ := (Option.any_eq_true _ _).mp hrun
  simp only [Bool.and_eq_true, decide_eq_true_eq] at hrun
  have hout := h _ s "r" 1 run .classified hs hruns hattempts hρ
    (isLastRun_iff.mpr ⟨⟨run, hρ, hrun.1⟩, hlast⟩) hclosed hrun.2
  rw [hst, Option.some.injEq, ReportStatus.value_inj] at hout
  cases hout

end System

end ReportTriage

import ReportTriage.LastRun
import ReportTriage.Retries

/-!
# What a run makes of a report

Whatever earlier runs have left of a report, the next run that is let alone ends with the status
`classified`, one classification and one queue item, all of them those of the rules; and it
touches no other report. So a reprocessed report looks like one that is processed for the first
time.

## Main definitions

* `System.retriesSuffice`, `System.Undisturbed` — a run that is let alone.
* `System.view`, `ReportView.clean` — a report up to ids and timestamps.
* `System.others` — the rows of the other reports.
* `System.reprocess_heals` — how such a run ends.
* `System.unhealed_report` — a run disturbed by an attempt of its own.
-/

namespace ReportTriage

/-! ## A run without a failure -/

/-- No attempt follows this one, should it fail with `e`. -/
def Run.givesUp (run : Run) (e : Failure) : Bool :=
  (run.pc.call run.reportId).any fun call =>
    !(call.retryPolicy.allows run.attempts && call.retryPolicy.retries e)

namespace WorkflowPc

def isPublish : WorkflowPc → Bool
  | publish _ _ _ _ => true
  | _ => false

theorem rank_le_of_not_isFailing {pc : WorkflowPc} (h : pc.isFailing = false) : pc.rank ≤ 9 := by
  cases pc with
  | raised | markFailedRaised => cases h
  | _ => simp [rank]

theorem eq_returned {pc : WorkflowPc} (hclosed : pc.isClosed = true)
    (hfailing : pc.isFailing = false) : ∃ result, pc = .returned result := by
  cases pc with
  | returned result => exact ⟨result, rfl⟩
  | markFailed | raised | markFailedRaised => cases hfailing
  | _ => cases hclosed

end WorkflowPc

theorem Run.isFailing_attemptFailed {run : Run} {e : Failure} (hpc : run.pc.isFailing = false)
    (h : run.pc.isPublish = true ∨ run.givesUp e = false) :
    (run.attemptFailed e).pc.isFailing = false := by
  unfold attemptFailed
  split
  · exact hpc
  · rename_i call hcall
    split
    · exact hpc
    · rename_i hlast
      rcases h with hpublish | hmore
      · cases hp : run.pc <;> rw [hp] at hpublish <;> first | rfl | cases hpublish
      · simp only [givesUp, hcall, Option.any_some, Bool.not_eq_false'] at hmore
        exact (hlast hmore).elim

/-! ## Views -/

/-- A report, its classifications and its queue items (queue, status, assignee), up to ids and
timestamps. -/
structure ReportView where
  status : Option String
  classifications : List TriageResult
  queueItems : List (String × String × Option String)

/-- What the rules make of a report. -/
def ReportView.clean [UnicodeData] (report : LoadedReport) : ReportView where
  status := some ReportStatus.classified.value
  classifications := [triage report]
  queueItems := [((triage report).routedQueue, "pending", none)]

/-- The request is `POST /reports/{report_id}/reprocess` for this report. -/
def Endpoint.reprocesses (r : String) : Endpoint → Bool
  | create _ _ => false
  | reprocess r' => r' = r

namespace System

def view (s : System) (r : String) : ReportView where
  status := s.status r
  classifications := (s.upserts.classifications.rows.filter fun c => c.reportId = r).map fun c =>
    ⟨c.category, c.priority, c.requiresReview, c.confidence, c.reasoningSummary, c.routedQueue⟩
  queueItems := (s.upserts.queueItems.rows.filter fun i => i.reportId = r).map fun i =>
    (i.queueName, i.queueStatus, i.assignedTo)

/-- The rows of the other reports. -/
def others (s : System) (r : String) :
    List Report × List ReportClassification × List ReviewQueueItem :=
  (s.reports.filter fun row => row.id ≠ r,
    s.upserts.classifications.rows.filter fun c => c.reportId ≠ r,
    s.upserts.queueItems.rows.filter fun i => i.reportId ≠ r)

/-- The action is one of a reprocess request for the report, of a run of the report, or of an
attempt of such a run. -/
def isOf (s : System) (r : String) : Action → Bool
  | .schedule ρ | .complete ρ | .timeout ρ => s.runs[ρ]?.any fun run => run.reportId = r
  | .exec i _ | .failAttempt i _ => s.attempts[i]?.any fun x =>
    s.runs[x.run]?.any fun run => run.reportId = r
  | a => a.request.any fun q => s.requests[q]?.any fun x => x.endpoint.reprocesses r

/-- No activity of run `ρ` fails for good, but for the publication. -/
def retriesSuffice (ρ : ℕ) (s : System) : Action → Bool
  | .complete σ => σ ≠ ρ || s.runs[σ]?.all fun run =>
    match run.outstanding.bind fun i => s.attempts[i]? with
    | some ⟨_, _, .finished (.error e)⟩ => run.pc.isPublish || !run.givesUp e
    | _ => true
  | .timeout σ => σ ≠ ρ || s.runs[σ]?.all fun run => run.pc.isPublish || !run.givesUp .timeout
  | _ => true

variable {s s' : System} {a : Action} {r : String} {ρ : ℕ}

section
variable [UnicodeData]

theorem isFailing_step (h : ∀ run, s.runs[ρ]? = some run → run.pc.isFailing = false)
    (he : Effect s a s') (hok : s.retriesSuffice ρ a = true) {run' : Run}
    (hρ' : s'.runs[ρ]? = some run') : run'.pc.isFailing = false := by
  cases he.run hρ' with
  | same hρ => exact h run' hρ
  | started => rfl
  | @terminated _ _ _ _ run _ _ _ hρ => exact h run hρ
  | @scheduled run _ hρ => exact h run hρ
  | @moved a run _ hρ hopen hm =>
    have hpc := h run hρ
    cases hm with
    | succeeded _ _ _ hrun =>
      obtain ⟨pc', hresume, rfl⟩ := Option.map_eq_some_iff.mp hrun
      exact (WorkflowPc.isFailing_resume hresume).trans hpc
    | @failed i x e hout hx hp =>
      obtain ⟨σ, activity, phase⟩ := x
      obtain rfl : phase = .finished (.error e) := hp
      refine Run.isFailing_attemptFailed hpc ?_
      simpa [retriesSuffice, hρ, hout, hx] using hok
    | timedOut hout =>
      refine Run.isFailing_attemptFailed hpc ?_
      simpa [retriesSuffice, hρ] using hok

/-- A run is terminated by the start of another one of its report. -/
theorem replaced_of_terminated (hs : machine.Reachable s) :
    ∀ (ρ : ℕ) (run : Run), s.runs[ρ]? = some run → run.terminated = true →
      s.replaced run.reportId ρ = true := by
  refine hs.invariant (I := fun s => ∀ (ρ : ℕ) (run : Run), s.runs[ρ]? = some run →
    run.terminated = true → s.replaced run.reportId ρ = true) ?_ ?_
  · rintro t rfl ρ run hρ
    simp [empty] at hρ
  · intro t a u ht ih hstep ρ run' hρ' hterminated
    have he := effect_of_step hstep
    have hkeep : ∀ run, t.runs[ρ]? = some run → run.terminated = true →
        run.reportId = run'.reportId → u.replaced run'.reportId ρ = true := by
      intro run hρ hterminated hid
      obtain ⟨σ, run₁, hlt, hσ, hid₁⟩ := replaced_iff.mp (ih ρ run hρ hterminated)
      obtain ⟨run₂, hσ', hid₂⟩ := he.run_kept hσ
      exact replaced_iff.mpr ⟨σ, run₂, hlt, hσ', by rw [hid₂, hid₁, hid]⟩
    cases he.run hρ' with
    | same hρ => exact hkeep run' hρ hterminated rfl
    | started => cases hterminated
    | @terminated q e reportId held run outcome hq hreaches hρ hopen hid =>
      obtain ⟨pc, -, -, hruns, -⟩ := he.of_start hq
      refine replaced_iff.mpr ⟨t.runs.length, Run.start reportId,
        (List.getElem?_eq_some_iff.mp hρ).1, ?_, hid.symm⟩
      rw [hruns]
      simp [hreaches, startWorkflow]
    | @scheduled run _ hρ => exact hkeep run hρ hterminated rfl
    | @moved a run _ hρ hopen hm =>
      -- Only an open run moves.
      refine hkeep run hρ ?_ hm.reportId.symm
      cases hm with
      | succeeded _ _ _ hrun =>
        obtain ⟨pc', -, rfl⟩ := Option.map_eq_some_iff.mp hrun
        exact hterminated
      | failed | timedOut =>
        rw [Run.terminated_attemptFailed] at hterminated
        exact hterminated

/-! ## The other reports -/

omit [UnicodeData] in
theorem filter_commitStatus (reports : List Report) (loaded : Report) (status : ReportStatus)
    (now : Time) : ((commitStatus reports loaded status now).filter fun row => row.id ≠ loaded.id) =
      reports.filter fun row => row.id ≠ loaded.id := by
  refine Slots.filter_map_eq fun row _ => ⟨by simp, fun hne => ?_⟩
  exact writeBack_of_ne (of_decide_eq_true hne)

/-- What a party of the report writes to `reports` is the status of the report. -/
theorem id_of_isOf (hs : machine.Reachable s) (ha : s.isOf r a = true) {loaded : Report}
    {status : ReportStatus} (hw : s.statusWrite a = some (loaded, status)) : loaded.id = r := by
  have hco := coherent_of_reachable hs
  rcases statusWrite_eq_some hw with ⟨q, e, now, raises, rfl, hq, -⟩ |
    ⟨q, e, now, cause, rfl, hq, -⟩ | ⟨i, x, input, r', rfl, hx, hp, hwrite⟩
  · obtain ⟨rfl, -⟩ := hco.reset q e loaded hq
    simpa [isOf, Action.request, hq, Endpoint.reprocesses] using ha
  · obtain ⟨hown, -⟩ := hco.window q e _ _ hq rfl
    cases e with
    | create => simp [isOf, Action.request, hq, Endpoint.reprocesses] at ha
    | reprocess r' =>
      obtain rfl : r' = r := by
        simpa [isOf, Action.request, hq, Endpoint.reprocesses] using ha
      exact (hown r' rfl).symm
  · obtain ⟨run, hrun, hid⟩ := hco.attempt i x hx
    obtain ⟨⟨status', hwrite'⟩, -⟩ := hco.loaded i x loaded hx hp
    obtain rfl : run.reportId = r := by simpa [isOf, hx, hrun] using ha
    exact hid _ _ hwrite'

/-- **The frame.** A step of a party of the report leaves the other reports alone. -/
theorem others_of_step (hs : machine.Reachable s) (he : Effect s a s') (ha : s.isOf r a = true) :
    s'.others r = s.others r := by
  have hco := coherent_of_reachable hs
  have hreports : (s'.reports.filter fun row => row.id ≠ r) =
      s.reports.filter fun row => row.id ≠ r := by
    rcases he.reports with ⟨-, hsame⟩ | ⟨-, q, e, row, raises, rfl, hq, -⟩ |
      ⟨loaded, status, now, hw, hcommit⟩
    · rw [hsame]
    · obtain ⟨payload, reportId, key, now, rfl, -⟩ := hco.commit q e row hq
      simp [isOf, Action.request, hq, Endpoint.reprocesses] at ha
    · rw [hcommit, ← id_of_isOf hs ha hw]
      exact filter_commitStatus ..
  have hupserts : ((s'.upserts.classifications.rows.filter fun c => c.reportId ≠ r) =
      s.upserts.classifications.rows.filter fun c => c.reportId ≠ r) ∧
      (s'.upserts.queueItems.rows.filter fun i => i.reportId ≠ r) =
        s.upserts.queueItems.rows.filter fun i => i.reportId ≠ r := by
    cases he with
    | @upserted a i x call v u b p hwho hx hc hu hm =>
      obtain ⟨run, hrun, -⟩ := hco.attempt i x hx
      obtain rfl : call.reportId = r := by
        rw [hco.upsert i x run call v hx hrun hc]
        rcases hwho with ⟨input, rfl⟩ | ⟨e, rfl⟩ <;> simpa [isOf, hx, hrun] using ha
      have hcausal := causal_of_reachable hs
      have htxn : ∀ t, x.phase = .upserting t → s.upserts.HasTxn t call := fun t hp =>
        hcausal.txn i x t hx hp call v hc
      refine Upserts.frame hcausal.sound hu ?_
      obtain ⟨σ, activity, phase⟩ := x
      cases hm with
      | began => exact .inl rfl
      | @advanced t newId now => exact .inr ⟨t, htxn t rfl, .inr ⟨newId, now, rfl⟩⟩
      | @returned t newId now => exact .inr ⟨t, htxn t rfl, .inr ⟨newId, now, rfl⟩⟩
      | @raised t newId now => exact .inr ⟨t, htxn t rfl, .inr ⟨newId, now, rfl⟩⟩
      | @failed t => exact .inr ⟨t, htxn t rfl, .inl rfl⟩
    | arrived | requestMoved | inserted | reset | started | startFailed | scheduled | runMoved
    | attemptMoved | marked | published => exact ⟨rfl, rfl⟩
  rw [others, others, hreports, hupserts.1, hupserts.2]

/-! ## How the run ends -/

/-- Run `ρ` of report `r` is started after `s₀` and let alone until `s`: the starts of the report
succeed and the run is the last of them, no late mark takes effect once it has decided, be it one
of its own, and none of its activities fails for good but the publication. -/
structure Undisturbed (r : String) (ρ : ℕ) (s₀ s : System) : Prop where
  reachable : machine.Reachable s₀
  path : machine.Path (fun s a =>
    s.startsSucceed r a && s.lateMarksHarmless r a && s.retriesSuffice ρ a) s₀ s
  started : s₀.runs.length ≤ ρ
  last : s.IsLastRun r ρ
  closed : s.windowOpen r = false

variable {s₀ : System}

theorem Undisturbed.reachable_end (h : Undisturbed r ρ s₀ s) : machine.Reachable s :=
  h.reachable.path (h.path.mono fun _ _ _ => trivial)

theorem Undisturbed.prevails (h : Undisturbed r ρ s₀ s) : Prevails r ρ s :=
  prevails_of_path h.reachable
    (h.path.mono fun _ _ hok => ((Bool.and_eq_true ..).mp hok).1) h.started h.last h.closed

theorem Undisturbed.isFailing (h : Undisturbed r ρ s₀ s) {run : Run}
    (hρ : s.runs[ρ]? = some run) : run.pc.isFailing = false := by
  refine h.path.invariant (I := fun s => ∀ run, s.runs[ρ]? = some run → run.pc.isFailing = false)
    ?_ ?_ run hρ
  · intro run hρ
    have := (List.getElem?_eq_some_iff.mp hρ).1
    have := h.started
    omega
  · intro t a u _ ih hok hstep run hρ
    exact isFailing_step ih (effect_of_step hstep) ((Bool.and_eq_true ..).mp hok).2 hρ

/-- A run that is let alone returns. -/
theorem Undisturbed.returned (h : Undisturbed r ρ s₀ s) {run : Run} (hρ : s.runs[ρ]? = some run)
    (hclosed : run.isOpen = false) : run.reportId = r ∧ ∃ result, run.pc = .returned result := by
  obtain ⟨⟨run', hρ', hid⟩, -⟩ := h.last
  rw [hρ] at hρ'
  cases hρ'
  refine ⟨hid, WorkflowPc.eq_returned ?_ (h.isFailing hρ)⟩
  by_contra hpc
  have hterminated : run.terminated = true := by
    simpa [Run.isOpen, Bool.eq_false_of_not_eq_true hpc] using hclosed
  have hreplaced := replaced_of_terminated h.reachable_end ρ run hρ hterminated
  rw [hid, (isLastRun_iff.mp h.last).2] at hreplaced
  cases hreplaced

/-- **The end of a run that is let alone** is that of the rules. -/
theorem Undisturbed.view (h : Undisturbed r ρ s₀ s) {run : Run} (hρ : s.runs[ρ]? = some run)
    (hclosed : run.isOpen = false) :
    ∃ row, s.getReport r = some row ∧ s.view r = .clean row.load := by
  obtain ⟨hid, result, hpc⟩ := h.returned hρ hclosed
  have hcausal := causal_of_reachable h.reachable_end
  have hjust := hcausal.pc ρ run hρ
  rw [hpc, hid] at hjust
  obtain ⟨-, ⟨c, hc, hcid⟩, ⟨i, hi, hiid⟩⟩ := hjust
  -- One row in each table, and each of them is that of the rules.
  have hcs : (s.upserts.classifications.rows.filter fun c => c.reportId = r) = [c] :=
    Slots.eq_singleton_of_mem (List.mem_filter.mpr ⟨hc, decide_eq_true hcid⟩)
      (hcausal.sound.classifications.length_filter_key_le r)
  have his : (s.upserts.queueItems.rows.filter fun i => i.reportId = r) = [i] :=
    Slots.eq_singleton_of_mem (List.mem_filter.mpr ⟨hi, decide_eq_true hiid⟩)
      (hcausal.sound.queueItems.length_filter_key_le r)
  obtain ⟨report, hloaded, hresult⟩ := hcausal.classifications.rows c hc
  obtain ⟨⟨t, ⟨report', hloaded', rfl⟩, hqueue⟩, -, hpending, hassigned⟩ :=
    hcausal.queueItems.rows i hi
  rw [hcid] at hloaded
  rw [hiid] at hloaded'
  obtain rfl := hloaded.unique hloaded'
  obtain ⟨row, hrow, rfl⟩ := hloaded
  have hstatus := h.prevails.status hρ (by rw [hpc]; rfl)
  refine ⟨row, hrow, ?_⟩
  simp only [System.view, ReportView.clean, hstatus, hcs, his, List.map_cons, List.map_nil,
    hresult, hqueue, hpending, hassigned]

/-- **A run that is let alone heals its report.** From any reachable state `s₀`, whatever it holds
of report `r`: a run of `r` started after `s₀` and let alone can always go on, within thirty
attempts; when it has ended the report is `classified`, with one classification and one queue
item, pending and unassigned, both those of the rules on the stored report; which is what any
such run of a report with this content ends with, its first one included; and no step of a
request to reprocess `r`, of a run of `r` or of its attempts touches another report. -/
theorem reprocess_heals (h : Undisturbed r ρ s₀ s) {run : Run} (hρ : s.runs[ρ]? = some run) :
    ((run.isOpen = true →
        (run.outstanding = none ∧ (machine.step s (.schedule ρ)).isSome) ∨
        ∃ i x, run.outstanding = some i ∧ s.attempts[i]? = some x ∧
          (x.isFinished = false ∨ (machine.step s (.complete ρ)).isSome)) ∧
      s.attemptsOf ρ ≤ 30) ∧
    (run.isOpen = false →
      (∃ row, s.getReport r = some row ∧ s.view r = .clean row.load) ∧
      ∀ (ρ' : ℕ) (run' : Run) (s₀' s' : System), Undisturbed r ρ' s₀' s' →
        s'.runs[ρ']? = some run' → run'.isOpen = false →
        (s'.getReport r).map Report.load = (s.getReport r).map Report.load →
        s.view r = s'.view r) ∧
    ∀ (t : System) (a : Action) (u : System), machine.Path (fun _ _ => True) s₀ t →
      machine.step t a = some u → t.isOf r a = true → u.others r = t.others r := by
  refine ⟨⟨fun hopen => progress h.reachable_end hρ hopen, ?_⟩, fun hclosed =>
    ⟨h.view hρ hclosed, fun ρ' run' s₀' s' h' hρ' hclosed' hsame => ?_⟩,
    fun t a u ht hstep ha => others_of_step (h.reachable.path ht) (effect_of_step hstep) ha⟩
  · have hle := attemptsOf_le h.reachable_end hρ
    have hrank := WorkflowPc.rank_le_of_not_isFailing (h.isFailing hρ)
    omega
  · obtain ⟨row, hrow, hview⟩ := h.view hρ hclosed
    obtain ⟨row', hrow', hview'⟩ := h'.view hρ' hclosed'
    rw [hrow, hrow', Option.map_some, Option.map_some, Option.some.injEq] at hsame
    rw [hview, hview', hsame]

end

/-- A report whose first run persists a classification, fails to route it, and marks it failed. -/
def failedAfterPersist : List Action :=
  let failure : Failure := ⟨"OperationalError", "", false⟩
  Sample.create 0 "r" ++ Sample.activity 0 0 1 ++ Sample.activity 0 1 2 ++ Sample.activity 0 2 1 ++
    Sample.activity 0 3 1 ++ Sample.activity 0 4 1 ++ Sample.activity 0 5 4 ++
    [.schedule 0, .failAttempt 6 failure, .complete 0, .schedule 0, .failAttempt 7 failure,
      .complete 0, .schedule 0, .failAttempt 8 failure, .complete 0] ++ Sample.activity 0 9 2

/-- Reprocessing heals it. -/
theorem reprocess_heals_failedAfterPersist : ∃ (_ : UnicodeData) (s₀ s : System),
    s₀.status "r" = some ReportStatus.failed.value ∧ Undisturbed "r" 1 s₀ s ∧
    ∃ row, s.getReport "r" = some row ∧ s.view "r" = .clean row.load := by
  let _ := asciiUnicode
  have hrun : ((machine.run empty failedAfterPersist).any fun s₀ =>
      s₀.status "r" = some ReportStatus.failed.value && s₀.runs.length ≤ 1 &&
        (machine.runIf (fun s a =>
            s.startsSucceed "r" a && s.lateMarksHarmless "r" a && s.retriesSuffice 1 a) s₀
          ([.arrive (.reprocess "r"), .loadForReprocess 1, .commitReset 1 3 false,
            .start 1 .accepted] ++ Sample.cleanRun 1 10)).any fun s =>
          !s.replaced "r" 1 && !s.windowOpen "r" && s.runs[1]?.any fun run =>
            run.reportId = "r" && !run.isOpen) = true := by decide +kernel
  obtain ⟨s₀, hs₀, hp⟩ := Machine.Along.exists_of_runIf rfl hrun
  obtain ⟨hp, hrun⟩ := (Bool.and_eq_true ..).mp hp
  simp only [Bool.and_eq_true, decide_eq_true_eq] at hp
  obtain ⟨hfailed, hlen⟩ := hp
  obtain ⟨s, hs, hp⟩ := (Option.any_eq_true _ _).mp hrun
  simp only [Bool.and_eq_true, Bool.not_eq_true'] at hp
  obtain ⟨⟨hlast, hclosed⟩, hrun⟩ := hp
  obtain ⟨run, hρ, hrun⟩ := (Option.any_eq_true _ _).mp hrun
  simp only [Bool.and_eq_true, decide_eq_true_eq, Bool.not_eq_true'] at hrun
  have h : Undisturbed "r" 1 s₀ s := ⟨hs₀, .of_runIf hs, hlen,
    isLastRun_iff.mpr ⟨⟨run, hρ, hrun.1⟩, hlast⟩, hclosed⟩
  exact ⟨_, s₀, s, hfailed, h, ((reprocess_heals h hρ).2.1 hrun.2).1⟩

/-- The status of report `r` is written by request `q` and by the attempts of run `ρ` only. -/
def writesAlone (r : String) (q ρ : ℕ) (s : System) (a : Action) : Bool :=
  match s.statusWrite a with
  | some (loaded, _) => loaded.id ≠ r || match a with
    | .exec i _ => s.attempts[i]?.all fun x => x.run = ρ
    | a => a.request = some q
  | none => true

/-- A report that was never started is reprocessed. The first attempt of its run to mark it as in
processing has loaded `queued` and outlasts its timeout, and the run goes on with a second one to
its end. -/
def lateMarkOfItsOwn : List Action :=
  [.arrive (.reprocess "r"), .loadForReprocess 1, .commitReset 1 3 false, .start 1 .accepted] ++
    Sample.activity 0 0 1 ++ [.schedule 0, .exec 1 (Sample.input 4), .timeout 0] ++
    Sample.activity 0 2 2 ++ Sample.activity 0 3 1 ++ Sample.activity 0 4 1 ++
    Sample.activity 0 5 1 ++ Sample.activity 0 6 4 ++ Sample.activity 0 7 4 ++
    Sample.activity 0 8 2 ++ Sample.activity 0 9 2

/-- A run may fail to heal its report, although nobody else writes: the only run there is has
returned, every attempt has finished, and the report is in `processing`. -/
theorem unhealed_report : ¬ ∀ (_ : UnicodeData) (s₀ s : System) (r : String) (q ρ : ℕ) (run : Run),
    machine.Reachable s₀ →
    machine.Path (fun s a => s.startsSucceed r a && s.writesAlone r q ρ a && s.retriesSuffice ρ a)
      s₀ s →
    s₀.runs.length ≤ ρ → s.IsLastRun r ρ → s.windowOpen r = false →
    (∀ x ∈ s.attempts, x.isFinished = true) → s.runs[ρ]? = some run → run.isOpen = false →
    s.status r = some ReportStatus.classified.value := by
  intro h
  let _ := asciiUnicode
  have hrun : ((machine.run empty rejectedStart).any fun s₀ => s₀.runs.length ≤ 0 &&
      (machine.runIf (fun s a => s.startsSucceed "r" a && s.writesAlone "r" 1 0 a &&
          s.retriesSuffice 0 a) s₀ (lateMarkOfItsOwn ++ [.exec 1 (Sample.input 5)])).any fun s =>
        !s.replaced "r" 0 && !s.windowOpen "r" && s.attempts.all Attempt.isFinished &&
          s.status "r" = some ReportStatus.processing.value && s.runs[0]?.any fun run =>
            run.reportId = "r" && !run.isOpen) = true := by decide +kernel
  obtain ⟨s₀, hs₀, hp⟩ := Machine.Along.exists_of_runIf rfl hrun
  obtain ⟨hlen, hrun⟩ := (Bool.and_eq_true ..).mp hp
  obtain ⟨s, hs, hp⟩ := (Option.any_eq_true _ _).mp hrun
  simp only [Bool.and_eq_true, Bool.not_eq_true', List.all_eq_true, decide_eq_true_eq] at hp
  obtain ⟨⟨⟨⟨hlast, hclosed⟩, hattempts⟩, hst⟩, hrun⟩ := hp
  obtain ⟨run, hρ, hrun⟩ := (Option.any_eq_true _ _).mp hrun
  simp only [Bool.and_eq_true, decide_eq_true_eq, Bool.not_eq_true'] at hrun
  have hclassified := h _ s₀ s "r" 1 0 run hs₀ (.of_runIf hs) (of_decide_eq_true hlen)
    (isLastRun_iff.mpr ⟨⟨run, hρ, hrun.1⟩, hlast⟩) hclosed hattempts hρ hrun.2
  rw [hst, Option.some.injEq, ReportStatus.value_inj] at hclassified
  cases hclassified

end System

end ReportTriage

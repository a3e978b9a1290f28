import ReportTriage.Rules

/-!
# The workflow

`ReportTriageWorkflow.run` awaits one activity at a time, so a run is always at one of its
await points. `WorkflowPc` names them, with the local variables the rest of the run still
reads; `call` is the activity awaited there, `resume` continues with its value and `raise`
with its error, which is where the two `try` blocks act.
-/

namespace ReportTriage

/-! ## Activities -/

/-- A call of an activity, with its arguments. -/
inductive Activity
  | loadReport (reportId : String)
  | markReportProcessing (reportId : String)
  | classifyReport (report : LoadedReport)
  | scorePriority (report : LoadedReport) (category : String)
  | decideReview (category priorityLevel : String) (confidence : ℚ)
  | persistClassification (reportId category priorityLevel : String) (requiresReview : Bool)
      (confidence : ℚ) (reasoningSummary : String)
  | routeQueue (reportId queueName : String)
  | publishTriageEvents (reportId category priorityLevel : String) (requiresReview : Bool)
      (confidence : ℚ) (queueName : String)
  | markReportClassified (reportId : String)
  | markReportFailed (reportId : String)

/-- The status an activity writes with `update_report_status`, and of which report. -/
def Activity.statusWrite : Activity → Option (String × ReportStatus)
  | .markReportProcessing r => some (r, .processing)
  | .markReportClassified r => some (r, .classified)
  | .markReportFailed r => some (r, .failed)
  | _ => none

/-- The statuses an activity writes. -/
theorem Activity.status_of_statusWrite {activity : Activity} {r : String} {status : ReportStatus}
    (h : activity.statusWrite = some (r, status)) :
    status = .processing ∨ status = .classified ∨ status = .failed := by
  cases activity <;> cases h <;> simp

/-- The other two are written by requests alone. -/
theorem Activity.ne_of_statusWrite {activity : Activity} {r : String} {status : ReportStatus}
    (h : activity.statusWrite = some (r, status)) :
    status ≠ .queued ∧ status ≠ .workflowStartFailed := by
  rcases Activity.status_of_statusWrite h with rfl | rfl | rfl <;> decide

/-- What an activity returns to the workflow. -/
inductive Value
  | null
  | report (report : LoadedReport)
  | classification (result : ClassificationResult)
  | text (s : String)
  | flag (b : Bool)

/-- The error of an attempt, as Temporal sees it. -/
structure Failure where
  type : String
  message : String
  nonRetryable : Bool
  deriving DecidableEq, Repr

/-- `ApplicationError(…, type="ReportNotFound", non_retryable=True)`. -/
def Failure.reportNotFound (reportId : String) : Failure :=
  ⟨"ReportNotFound", "report not found: " ++ reportId, true⟩

/-- The `LookupError` of `update_report_status`. -/
def Failure.lookupError (reportId : String) : Failure :=
  ⟨"LookupError", "report not found: " ++ reportId, false⟩

/-- An attempt that reported nothing within `start_to_close_timeout`. -/
def Failure.timeout : Failure :=
  ⟨"TimeoutType:StartToClose", "activity StartToClose timeout", false⟩

/-- Durations are in seconds. -/
structure RetryPolicy where
  initialInterval : ℚ := 1
  backoffCoefficient : ℚ := 2
  maximumInterval : Option ℚ := none
  /-- Zero means no limit. -/
  maximumAttempts : ℕ := 0
  nonRetryableErrorTypes : List String := []

def defaultRetry : RetryPolicy where
  initialInterval := 1
  backoffCoefficient := 2
  maximumInterval := some 15
  maximumAttempts := 3
  nonRetryableErrorTypes := ["ReportNotFound"]

def failRetry : RetryPolicy where
  maximumAttempts := 3

/-- Another attempt may follow `attempts` of them. -/
def RetryPolicy.allows (policy : RetryPolicy) (attempts : ℕ) : Bool :=
  policy.maximumAttempts = 0 || attempts < policy.maximumAttempts

/-- The error is worth another attempt. -/
def RetryPolicy.retries (policy : RetryPolicy) (e : Failure) : Bool :=
  !e.nonRetryable && e.type ∉ policy.nonRetryableErrorTypes

structure ActivityCall where
  activity : Activity
  startToCloseTimeout : ℚ
  retryPolicy : RetryPolicy

/-! ## The run -/

/-- The dictionary a run returns. -/
structure RunResult where
  reportId : String
  category : String
  priority : String
  requiresReview : Bool
  queueName : String
  deriving DecidableEq, Repr

/-- Where a run stands. -/
inductive WorkflowPc
  | load
  | markProcessing (report : LoadedReport)
  | classify (report : LoadedReport)
  | scorePriority (report : LoadedReport) (classification : ClassificationResult)
  | decideReview (classification : ClassificationResult) (priorityLevel : String)
  | persist (classification : ClassificationResult) (priorityLevel : String)
      (requiresReview : Bool)
  | route (classification : ClassificationResult) (priorityLevel : String)
      (requiresReview : Bool) (queueName : String)
  | publish (classification : ClassificationResult) (priorityLevel : String)
      (requiresReview : Bool) (queueName : String)
  | markClassified (classification : ClassificationResult) (priorityLevel : String)
      (requiresReview : Bool) (queueName : String)
  /-- In the `except ActivityError as err` block. -/
  | markFailed (err : Failure)
  | returned (result : RunResult)
  /-- `raise err`, after `mark_report_failed_activity` succeeded. -/
  | raised (err : Failure)
  /-- The error of `mark_report_failed_activity` itself left the `except` block. -/
  | markFailedRaised (err : Failure)

namespace WorkflowPc

/-- The activity awaited, for the report the run was started with. -/
def call (reportId : String) : WorkflowPc → Option ActivityCall
  | load => some ⟨.loadReport reportId, 10, defaultRetry⟩
  | markProcessing _ => some ⟨.markReportProcessing reportId, 10, defaultRetry⟩
  | classify report => some ⟨.classifyReport report, 30, defaultRetry⟩
  | scorePriority report c => some ⟨.scorePriority report c.category, 10, defaultRetry⟩
  | decideReview c priorityLevel =>
    some ⟨.decideReview c.category priorityLevel c.confidence, 10, defaultRetry⟩
  | persist c priorityLevel requiresReview =>
    some ⟨.persistClassification reportId c.category priorityLevel requiresReview c.confidence
      c.reasoningSummary, 15, defaultRetry⟩
  | route _ _ _ queueName => some ⟨.routeQueue reportId queueName, 15, defaultRetry⟩
  | publish c priorityLevel requiresReview queueName =>
    some ⟨.publishTriageEvents reportId c.category priorityLevel requiresReview c.confidence
      queueName, 15, defaultRetry⟩
  | markClassified _ _ _ _ => some ⟨.markReportClassified reportId, 10, defaultRetry⟩
  | markFailed _ => some ⟨.markReportFailed reportId, 10, failRetry⟩
  | returned _ | raised _ | markFailedRaised _ => none

/-- Continue with the value of the awaited activity. -/
def resume (reportId : String) : WorkflowPc → Value → Option WorkflowPc
  | load, .report report => some (markProcessing report)
  | markProcessing report, .null => some (classify report)
  | classify report, .classification c => some (scorePriority report c)
  | scorePriority _ c, .text priorityLevel => some (decideReview c priorityLevel)
  | decideReview c priorityLevel, .flag requiresReview =>
    some (persist c priorityLevel requiresReview)
  | persist c priorityLevel requiresReview, .text queueName =>
    some (route c priorityLevel requiresReview queueName)
  | route c priorityLevel requiresReview queueName, .null =>
    some (publish c priorityLevel requiresReview queueName)
  | publish c priorityLevel requiresReview queueName, .null =>
    some (markClassified c priorityLevel requiresReview queueName)
  | markClassified c priorityLevel requiresReview queueName, .null =>
    some (returned ⟨reportId, c.category, priorityLevel, requiresReview, queueName⟩)
  | markFailed err, .null => some (raised err)
  | _, _ => none

/-- Continue with the `ActivityError` of the awaited activity. Publishing is best effort. The
inner `except ApplicationError` does not catch an `ActivityError`, so the error of
`mark_report_failed_activity` propagates. -/
def raise : WorkflowPc → Failure → WorkflowPc
  | publish c priorityLevel requiresReview queueName, _ =>
    markClassified c priorityLevel requiresReview queueName
  | markFailed _, e => markFailedRaised e
  | returned result, _ => returned result
  | raised err, _ => raised err
  | markFailedRaised err, _ => markFailedRaised err
  | _, e => markFailed e

/-- The run is over. -/
def isClosed : WorkflowPc → Bool
  | returned _ | raised _ | markFailedRaised _ => true
  | _ => false

/-- In the `except` block, or past it. -/
def isFailing : WorkflowPc → Bool
  | markFailed _ | raised _ | markFailedRaised _ => true
  | _ => false

theorem isFailing_resume {pc pc' : WorkflowPc} {r : String} {v : Value}
    (h : pc.resume r v = some pc') : pc'.isFailing = pc.isFailing := by
  cases pc <;> cases v <;> cases h <;> rfl

end WorkflowPc

/-! ## Awaits -/

namespace WorkflowPc

/-- How many awaits are behind. -/
def rank : WorkflowPc → ℕ
  | load => 0
  | markProcessing _ => 1
  | classify _ => 2
  | scorePriority _ _ => 3
  | decideReview _ _ => 4
  | persist _ _ _ => 5
  | route _ _ _ _ => 6
  | publish _ _ _ _ => 7
  | markClassified _ _ _ _ => 8
  | returned _ | markFailed _ => 9
  | raised _ | markFailedRaised _ => 10

theorem rank_le (pc : WorkflowPc) : pc.rank ≤ 10 := by
  cases pc <;> simp [rank]

theorem rank_resume {pc pc' : WorkflowPc} {r : String} {v : Value} (h : pc.resume r v = some pc') :
    pc'.rank = pc.rank + 1 := by
  cases pc <;> cases v <;> cases h <;> rfl

theorem rank_raise {pc : WorkflowPc} {r : String} {call : ActivityCall} (e : Failure)
    (h : pc.call r = some call) : pc.rank + 1 ≤ (pc.raise e).rank := by
  cases pc <;> cases h <;> simp [raise, rank]

/-- Every retry policy in use allows three attempts. -/
theorem allows_call {pc : WorkflowPc} {r : String} {call : ActivityCall}
    (h : pc.call r = some call) (n : ℕ) : call.retryPolicy.allows n = decide (n < 3) := by
  cases pc <;> cases h <;> rfl

theorem isClosed_of_call {pc : WorkflowPc} {r : String} {call : ActivityCall}
    (h : pc.call r = some call) : pc.isClosed = false := by
  cases pc <;> first | rfl | cases h

theorem call_of_not_isClosed {pc : WorkflowPc} (r : String) (h : pc.isClosed = false) :
    ∃ call, pc.call r = some call := by
  cases pc <;> first | exact ⟨_, rfl⟩ | cases h

end WorkflowPc

/-! ## Retries -/

/-- A run of the workflow on a report: where it stands, how many attempts of the awaited
activity were scheduled, and the attempt Temporal waits for. -/
structure Run where
  reportId : String
  pc : WorkflowPc
  attempts : ℕ
  outstanding : Option ℕ
  terminated : Bool

namespace Run

def start (reportId : String) : Run := ⟨reportId, .load, 0, none, false⟩

def isOpen (run : Run) : Bool := !run.terminated && !run.pc.isClosed

/-- `id=f"report-triage-{report_id}"`. -/
def workflowId (reportId : String) : String := "report-triage-" ++ reportId

/-- The awaited activity returned. -/
def succeeded (run : Run) (v : Value) : Option Run :=
  (run.pc.resume run.reportId v).map fun pc =>
    { run with pc := pc, attempts := 0, outstanding := none }

/-- The outstanding attempt failed: leave it to the next one, or raise. -/
def attemptFailed (run : Run) (e : Failure) : Run :=
  match run.pc.call run.reportId with
  | none => run
  | some call =>
    if call.retryPolicy.allows run.attempts && call.retryPolicy.retries e then
      { run with outstanding := none }
    else
      { run with pc := run.pc.raise e, attempts := 0, outstanding := none }

theorem reportId_of_succeeded {run run' : Run} {v : Value} (h : run.succeeded v = some run') :
    run'.reportId = run.reportId := by
  obtain ⟨pc, -, rfl⟩ := Option.map_eq_some_iff.mp h
  rfl

theorem reportId_attemptFailed (run : Run) (e : Failure) :
    (run.attemptFailed e).reportId = run.reportId := by
  unfold attemptFailed
  split
  · rfl
  · split <;> rfl

theorem terminated_attemptFailed (run : Run) (e : Failure) :
    (run.attemptFailed e).terminated = run.terminated := by
  unfold attemptFailed
  split
  · rfl
  · split <;> rfl

theorem outstanding_attemptFailed {run : Run} {call : ActivityCall} {e : Failure}
    (h : run.pc.call run.reportId = some call) : (run.attemptFailed e).outstanding = none := by
  simp only [attemptFailed, h]
  split <;> rfl

/-- A run only ever has the status of its own report written. -/
theorem reportId_of_call {run : Run} {call : ActivityCall} {r : String} {status : ReportStatus}
    (h : run.pc.call run.reportId = some call)
    (hw : call.activity.statusWrite = some (r, status)) : r = run.reportId := by
  cases hpc : run.pc <;> rw [hpc] at h <;> cases h <;> cases hw <;> rfl

theorem workflowId_inj {r r' : String} : workflowId r = workflowId r' ↔ r = r' := by
  simp [workflowId]

end Run

end ReportTriage

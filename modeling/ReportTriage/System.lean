import ReportTriage.Stored
import ReportTriage.Upserts
import ReportTriage.Workflow

/-!
# The system

The three tables, the stream, and every party that reads or writes them: HTTP requests, each
suspended at one of its awaits; workflow runs, driven by Temporal; and activity attempts,
which are functions executing on a worker. Any number of each exist at once, and an action
moves one of them by one statement, remote call or report.

An attempt is not tied to its run. Temporal may give up on it (`timeout`) or close the run,
and the function goes on executing all the same: nothing in the activities heartbeats. Nor is
a statement tied to its answer: a commit may take effect and still raise, a start may be
accepted and still raise, a message may be stored and still raise.

`history` records the commits to `reports` and the start calls, latest first. Nothing in the
system reads it.
-/

namespace ReportTriage

open WriteBack (column)

/-! ## Parties -/

/-- The answer to a `start_workflow` call. -/
inductive StartOutcome
  | accepted
  | rejected (cause : String)
  /-- The server accepted the start, the client saw an exception. -/
  | acceptedButRaised (cause : String)
  deriving DecidableEq, Repr

/-- The server started a run. -/
def StartOutcome.reachesServer : StartOutcome → Bool
  | .rejected _ => false
  | _ => true

/-- The `detail` of the 503 of `create_report`. -/
structure StartFailedDetail where
  reportId : String
  status : String
  error : String
  message : String
  cause : String
  deriving DecidableEq, Repr

inductive Response
  | created (reportId status : String)
  | reprocessRequested (reportId status message : String)
  | createStartFailed (detail : StartFailedDetail)
  | reprocessStartFailed (detail : String)
  | notFound (detail : String)
  | serverError
  deriving DecidableEq, Repr

/-- The report a body of `POST /reports` names. -/
def Response.reportId : Response → Option String
  | .created reportId _ => some reportId
  | .createStartFailed detail => some detail.reportId
  | _ => none

inductive Endpoint
  /-- `POST /reports`, with the `Idempotency-Key` header. -/
  | create (payload : ReportCreateRequest) (idempotencyKey : Option String)
  /-- `POST /reports/{report_id}/reprocess`. -/
  | reprocess (reportId : String)

/-- The await a request is suspended at. `loaded` is the instance in the identity map of its
session, which keeps only what a local variable still refers to. -/
inductive RequestPc
  | lookup
  | insert
  /-- The INSERT is flushed and uncommitted. -/
  | commit (row : Report)
  | relookup
  | getReport
  | reset (loaded : Report)
  /-- `held` is `none` in `create_report`, which drops the instance it inserted. -/
  | start (reportId : String) (held : Option Report)
  | loadStartFailed (reportId cause : String)
  | markStartFailed (loaded : Report) (cause : String)
  | done (response : Response)
  /-- The request ended at an await without a response. -/
  | stopped

structure Request where
  endpoint : Endpoint
  pc : RequestPc

/-- How far an activity function has executed. -/
inductive AttemptPhase
  | running
  /-- `session.get` has returned. -/
  | loaded (row : Report)
  /-- In `upsert_*`, as a transaction of its table. -/
  | upserting (txn : ℕ)
  /-- `publish_triaged` has returned; the events carry the time read at the start. -/
  | triagedPublished (occurredAt : Time)
  | finished (result : Except Failure Value)

/-- An execution of an activity function, scheduled by run number `run`. -/
structure Attempt where
  run : ℕ
  activity : Activity
  phase : AttemptPhase

def Attempt.isFinished (a : Attempt) : Bool :=
  match a.phase with
  | .finished _ => true
  | _ => false

inductive Writer
  | request (q : ℕ)
  | attempt (a : ℕ)
  deriving DecidableEq, Repr

inductive Event
  | inserted (q : ℕ) (reportId : String)
  /-- `stored`: the row holds the status right after the commit. -/
  | statusCommitted (writer : Writer) (reportId : String) (status : ReportStatus) (stored : Bool)
  | startCalled (q : ℕ) (reportId : String) (outcome : StartOutcome)
  deriving DecidableEq, Repr

structure System where
  reports : List Report
  upserts : Upserts
  stream : List Message
  requests : List Request
  runs : List Run
  attempts : List Attempt
  history : List Event

/-! ## Statements on `reports` -/

/-- The row `reports_repo.create_report` adds, of what the columns hold of the payload. -/
def createReport (payload : ReportCreateRequest) (reportId : String)
    (idempotencyKey : Option String) (now : Time) : Report :=
  { id := reportId
    reporterId := payload.reporterId
    targetType := payload.targetType
    targetId := payload.targetId
    reasonCode := payload.reasonCode
    description := payload.description
    sourceChannel := payload.sourceChannel
    metadata := payload.metadata
    idempotencyKey := idempotencyKey
    status := ReportStatus.queued.value
    createdAt := now
    updatedAt := now }

/-- Two rows that cannot both be in `reports`: NULL keys do not collide. -/
def Report.Collides (a b : Report) : Prop :=
  a.id = b.id ∨ a.idempotencyKey.isSome ∧ a.idempotencyKey = b.idempotencyKey

instance (a b : Report) : Decidable (a.Collides b) := inferInstanceAs (Decidable (_ ∨ _))

/-- The assignments of `update_report_status` and `reset_report_for_reprocess`. -/
def Report.assignStatus (r : Report) (status : ReportStatus) (now : Time) : Report :=
  { r with status := status.value, updatedAt := now }

/-- What the UPDATE leaves of a stored row, for an instance loaded as `loaded`. -/
def Report.writeBack (loaded : Report) (status : ReportStatus) (now : Time) (r : Report) : Report :=
  if r.id = loaded.id then
    { r with
      status := column loaded.status status.value r.status
      updatedAt := column loaded.updatedAt now r.updatedAt }
  else r

/-- Flush and commit of the assignments. -/
def commitStatus (reports : List Report) (loaded : Report) (status : ReportStatus) (now : Time) :
    List Report :=
  reports.map (loaded.writeBack status now)

/-- The commit of a status that leaves `reports`. -/
def Event.ofCommit (writer : Writer) (loaded : Report) (status : ReportStatus)
    (reports : List Report) : Event :=
  .statusCommitted writer loaded.id status
    ((reports.find? fun r => r.id = loaded.id).any fun r => r.status = status.value)

/-! ## Requests -/

/-- The first await of an endpoint. -/
def Endpoint.firstPc : Endpoint → RequestPc
  | create _ (some _) => .lookup
  | create _ none => .insert
  | reprocess _ => .getReport

/-- The answer once the workflow is started. -/
def Endpoint.started (reportId : String) : Endpoint → Response
  | create _ _ => .created reportId ReportStatus.queued.value
  | reprocess _ => .reprocessRequested reportId ReportStatus.queued.value "reprocess requested"

/-- The 503. Its message is not an f-string: the braces are text. -/
def Endpoint.startFailed (reportId cause : String) : Endpoint → Response
  | create _ _ => .createStartFailed
      { reportId := reportId
        status := ReportStatus.workflowStartFailed.value
        error := "workflow start failed"
        message := "report saved but triage workflow could not be started; " ++
          "retry via POST /reports/\x7breport_id\x7d/reprocess once Temporal recovers"
        cause := cause }
  | reprocess _ => .reprocessStartFailed ("workflow start failed: " ++ cause)

/-- A failure here ends the request without an answer of its own. -/
def RequestPc.isBeforeStart : RequestPc → Bool
  | lookup | insert | commit _ | relookup | getReport | reset _ => true
  | start _ _ | loadStartFailed _ _ | markStartFailed _ _ | done _ | stopped => false

def RequestPc.isEnded : RequestPc → Bool
  | done _ | stopped => true
  | _ => false

/-- The report a request has committed as queued, until the start of its workflow is settled. -/
def RequestPc.startWindow : RequestPc → Option String
  | start reportId _ | loadStartFailed reportId _ => some reportId
  | markStartFailed loaded _ => some loaded.id
  | _ => none

/-- The report and the exception, in the `except` block of either endpoint. -/
def RequestPc.failedStart : RequestPc → Option (String × String)
  | loadStartFailed reportId cause => some (reportId, cause)
  | markStartFailed loaded cause => some (loaded.id, cause)
  | _ => none

/-- The `session.get` of the `except` block: a SELECT, unless the session holds the instance. -/
def RequestPc.startFailed (reportId cause : String) : Option Report → RequestPc
  | none => .loadStartFailed reportId cause
  | some loaded => .markStartFailed loaded cause

/-- The request holds an uncommitted row that collides with `row`. -/
def RequestPc.Blocks (row : Report) : RequestPc → Prop
  | commit other => other.Collides row
  | _ => False

instance (row : Report) (pc : RequestPc) : Decidable (pc.Blocks row) := by
  unfold RequestPc.Blocks
  split <;> infer_instance

/-- `start_workflow` with `TERMINATE_IF_RUNNING`: the open run of the same workflow id is
closed and a new one added. -/
def startWorkflow (runs : List Run) (reportId : String) : List Run :=
  (runs.map fun run =>
    if run.isOpen ∧ Run.workflowId run.reportId = Run.workflowId reportId then
      { run with terminated := true }
    else run) ++ [Run.start reportId]

/-- The upsert an activity calls, and the value it returns once that is committed. -/
def Activity.upsertCall : Activity → Option (UpsertCall × Value)
  | persistClassification reportId category priorityLevel requiresReview confidence summary =>
    some (.classification ⟨reportId, category, priorityLevel, requiresReview, confidence, summary,
      routeToQueue category⟩, .text (routeToQueue category))
  | routeQueue reportId queueName => some (.queueItem ⟨reportId, queueName⟩, .null)
  | _ => none

/-- A run only ever has the rows of its own report upserted. -/
theorem Run.reportId_of_upsertCall {run : Run} {c : ActivityCall} {call : UpsertCall} {v : Value}
    (h : run.pc.call run.reportId = some c) (hc : c.activity.upsertCall = some (call, v)) :
    call.reportId = run.reportId := by
  cases hpc : run.pc <;> rw [hpc] at h <;> cases h <;> cases hc <;> rfl

namespace System

def empty : System := ⟨[], .empty, [], [], [], [], []⟩

variable (s : System)

/-- `find_report_by_idempotency_key`. -/
def findReportByIdempotencyKey (key : String) : Option Report :=
  s.reports.find? fun r => r.idempotencyKey = some key

/-- `get_report`, and `session.get` in a fresh session. -/
def getReport (reportId : String) : Option Report := s.reports.find? fun r => r.id = reportId

def setPc (q : ℕ) (pc : RequestPc) : System :=
  { s with requests := s.requests.modify q fun r => { r with pc := pc } }

def arrive (endpoint : Endpoint) : System :=
  { s with requests := s.requests ++ [⟨endpoint, endpoint.firstPc⟩] }

def lookup (q : ℕ) : Option System :=
  match s.requests[q]? with
  | some ⟨.create _ (some key), .lookup⟩ =>
    some (s.setPc q (match s.findReportByIdempotencyKey key with
      | some existing => .done (.created existing.id existing.status)
      | none => .insert))
  | _ => none

/-- Flush of the INSERT: it waits for a colliding one that is uncommitted, and fails on a
colliding row that is committed. Without a key the `IntegrityError` propagates. The row is what
the columns make of the request. -/
def insert (q : ℕ) (reportId : String) (now : Time) : Option System :=
  match s.requests[q]? with
  | some ⟨.create payload key, .insert⟩ =>
    let row := createReport payload.stored reportId key now
    if ∃ other ∈ s.reports, other.Collides row then
      some (s.setPc q (if key.isSome then .relookup else .done .serverError))
    else if ∃ r ∈ s.requests, r.pc.Blocks row then none
    else some (s.setPc q (.commit row))
  | _ => none

/-- Commit of the INSERT. -/
def commitInsert (q : ℕ) (raises : Bool) : Option System :=
  match s.requests[q]? with
  | some ⟨_, .commit row⟩ =>
    some { s.setPc q (if raises then .done .serverError else .start row.id none) with
      reports := s.reports ++ [row]
      history := .inserted q row.id :: s.history }
  | _ => none

/-- Rollback and second lookup; when it finds nothing the `IntegrityError` propagates. -/
def relookup (q : ℕ) : Option System :=
  match s.requests[q]? with
  | some ⟨.create _ (some key), .relookup⟩ =>
    some (s.setPc q (.done (match s.findReportByIdempotencyKey key with
      | some existing => .created existing.id existing.status
      | none => .serverError)))
  | _ => none

def loadForReprocess (q : ℕ) : Option System :=
  match s.requests[q]? with
  | some ⟨.reprocess reportId, .getReport⟩ =>
    some (s.setPc q (match s.getReport reportId with
      | some report => .reset report
      | none => .done (.notFound "report not found")))
  | _ => none

/-- `reset_report_for_reprocess` and its commit. -/
def commitReset (q : ℕ) (now : Time) (raises : Bool) : Option System :=
  match s.requests[q]? with
  | some ⟨_, .reset loaded⟩ =>
    let reports := commitStatus s.reports loaded .queued now
    some { s.setPc q (if raises then .done .serverError
        else .start loaded.id (some (loaded.assignStatus .queued now))) with
      reports := reports
      history := .ofCommit (.request q) loaded .queued reports :: s.history }
  | _ => none

/-- The `start_workflow` call of either endpoint. -/
def start (q : ℕ) (outcome : StartOutcome) : Option System :=
  match s.requests[q]? with
  | some ⟨endpoint, .start reportId held⟩ =>
    some { s.setPc q (match outcome with
        | .accepted => .done (endpoint.started reportId)
        | .rejected cause | .acceptedButRaised cause => .startFailed reportId cause held) with
      runs := if outcome.reachesServer then startWorkflow s.runs reportId else s.runs
      history := .startCalled q reportId outcome :: s.history }
  | _ => none

/-- The SELECT of `update_report_status` in the `except` block of `create_report`. The
`LookupError` for a missing row is logged and dropped. -/
def loadStartFailed (q : ℕ) : Option System :=
  match s.requests[q]? with
  | some ⟨endpoint, .loadStartFailed reportId cause⟩ =>
    some (s.setPc q (match s.getReport reportId with
      | some report => .markStartFailed report cause
      | none => .done (endpoint.startFailed reportId cause)))
  | _ => none

/-- The assignments of `update_report_status` in the `except` block of either endpoint, and
their commit. Whether the commit raises makes no difference: the exception is logged and
dropped. -/
def commitStartFailed (q : ℕ) (now : Time) : Option System :=
  match s.requests[q]? with
  | some ⟨endpoint, .markStartFailed loaded cause⟩ =>
    let reports := commitStatus s.reports loaded .workflowStartFailed now
    some { s.setPc q (.done (endpoint.startFailed loaded.id cause)) with
      reports := reports
      history := .ofCommit (.request q) loaded .workflowStartFailed reports :: s.history }
  | _ => none

/-- The SELECT or the write fails; the answer is the same. -/
def dropStartFailed (q : ℕ) : Option System := do
  let r ← s.requests[q]?
  let (reportId, cause) ← r.pc.failedStart
  some (s.setPc q (.done (r.endpoint.startFailed reportId cause)))

/-- The awaited statement raises without taking effect. -/
def fail (q : ℕ) : Option System :=
  match s.requests[q]? with
  | some r => if r.pc.isBeforeStart then some (s.setPc q (.done .serverError)) else none
  | none => none

/-- The process serving the request goes away. -/
def stop (q : ℕ) : Option System :=
  match s.requests[q]? with
  | some r => if r.pc.isEnded then none else some (s.setPc q .stopped)
  | none => none

/-! ## Runs -/

def setRun (ρ : ℕ) (run : Run) : System := { s with runs := s.runs.set ρ run }

/-- Temporal hands an attempt of the awaited activity to a worker. -/
def schedule (ρ : ℕ) : Option System := do
  let run ← s.runs[ρ]?
  let call ← run.pc.call run.reportId
  if run.isOpen ∧ run.outstanding = none then
    some { s with
      runs := s.runs.set ρ
        { run with attempts := run.attempts + 1, outstanding := some s.attempts.length }
      attempts := s.attempts ++ [⟨ρ, call.activity, .running⟩] }
  else none

/-- The outstanding attempt reports its result. -/
def complete (ρ : ℕ) : Option System := do
  let run ← s.runs[ρ]?
  let a ← run.outstanding
  let x ← s.attempts[a]?
  match x.phase with
  | .finished result =>
    if run.isOpen then
      match result with
      | .ok v => (run.succeeded v).map (s.setRun ρ)
      | .error e => some (s.setRun ρ (run.attemptFailed e))
    else none
  | _ => none

/-- The outstanding attempt has reported nothing in time, whatever it does meanwhile. -/
def timeout (ρ : ℕ) : Option System := do
  let run ← s.runs[ρ]?
  if run.isOpen ∧ run.outstanding.isSome then
    some (s.setRun ρ (run.attemptFailed .timeout))
  else none

/-! ## Attempts -/

/-- What became of a message that was published. -/
inductive Delivery
  | acked (storedAt : ServerTime)
  /-- Stored, and the acknowledgement lost. -/
  | storedUnacked (storedAt : ServerTime) (e : Failure)
  | lost (e : Failure)

/-- What the environment supplies to one statement of an attempt. -/
structure Input where
  now : Time
  newId : String
  /-- The commit takes effect and raises. -/
  commitRaises : Option Failure
  delivery : Delivery
  /-- The text of the driver's exception. -/
  driverText : String

def setPhase (a : ℕ) (p : AttemptPhase) : System :=
  { s with attempts := s.attempts.modify a fun x => { x with phase := p } }

/-- An activity that does nothing but compute. -/
def returnValue (a : ℕ) (v : Value) : AttemptPhase → Option System
  | .running => some (s.setPhase a (.finished (.ok v)))
  | _ => none

def loadReportActivity (a : ℕ) (reportId : String) : AttemptPhase → Option System
  | .running => some (s.setPhase a (.finished (match s.getReport reportId with
      | some report => .ok (.report report.load)
      | none => .error (.reportNotFound reportId))))
  | _ => none

/-- `update_report_status` in a session of its own. -/
def updateReportStatus (a : ℕ) (reportId : String) (status : ReportStatus) (input : Input) :
    AttemptPhase → Option System
  | .running => some (s.setPhase a (match s.getReport reportId with
      | some report => .loaded report
      | none => .finished (.error (.lookupError reportId))))
  | .loaded report =>
    let reports := commitStatus s.reports report status input.now
    some { s.setPhase a (.finished (match input.commitRaises with
        | none => .ok .null
        | some e => .error e)) with
      reports := reports
      history := .ofCommit (.attempt a) report status reports :: s.history }
  | _ => none

/-- An upsert in a session of its own, and the value returned after it. -/
def upsertThenReturn (a : ℕ) (call : UpsertCall) (v : Value) (input : Input) :
    AttemptPhase → Option System
  | .running => (s.upserts.step call.begin).map fun u =>
      { s.setPhase a (.upserting (s.upserts.nextTxn call)) with upserts := u }
  | .upserting t => (s.upserts.step (call.advance t input.newId input.now)).map fun u =>
      { s.setPhase a (match u.ended t call with
          | none => .upserting t
          | some none => .finished (match input.commitRaises with
            | none => .ok v
            | some e => .error e)
          | some (some .other) => .finished (.error ⟨"StaleDataError", input.driverText, false⟩)
          | some (some _) => .finished (.error ⟨"IntegrityError", input.driverText, false⟩)) with
        upserts := u }
  | _ => none

/-- `js.publish`. The server ignores a message whose id it has stored within the duplicate
window, and acknowledges it all the same. -/
def store (m : Message) : List Message :=
  if ∃ m' ∈ s.stream, m'.msgId = m.msgId ∧ m.storedAt ≤ m'.storedAt + duplicateWindow then s.stream
  else s.stream ++ [m]

/-- `_msg_id`. -/
def msgId (subject reportId : String) : String := subject ++ ":" ++ reportId

/-- Publish one event and go on to `next`. -/
def publish (a : ℕ) (subject reportId : String) (payload : Payload) (next : AttemptPhase) :
    Delivery → System
  | .acked storedAt =>
    { s.setPhase a next with
      stream := s.store ⟨subject, msgId subject reportId, payload, storedAt⟩ }
  | .storedUnacked storedAt e =>
    { s.setPhase a (.finished (.error e)) with
      stream := s.store ⟨subject, msgId subject reportId, payload, storedAt⟩ }
  | .lost e => s.setPhase a (.finished (.error e))

def publishTriageEventsActivity (a : ℕ) (reportId category priorityLevel : String)
    (requiresReview : Bool) (confidence : ℚ) (queueName : String) (input : Input) :
    AttemptPhase → Option System
  | .running => some (s.publish a subjectReportTriaged reportId
      (.triaged ⟨reportId, category, priorityLevel, requiresReview, confidence, input.now⟩)
      (.triagedPublished input.now) input.delivery)
  | .triagedPublished now => some (s.publish a subjectQueueRouted reportId
      (.queueRouted ⟨reportId, queueName, "pending", now⟩) (.finished (.ok .null)) input.delivery)
  | _ => none

variable [UnicodeData]

/-- The next statement of attempt `a`, whether or not anyone still waits for it. -/
def exec (a : ℕ) (input : Input) : Option System := do
  let x ← s.attempts[a]?
  match x.activity with
  | .loadReport reportId => s.loadReportActivity a reportId x.phase
  | .markReportProcessing reportId => s.updateReportStatus a reportId .processing input x.phase
  | .classifyReport report =>
    s.returnValue a (.classification
      (classifyReport report.reasonCode report.description report.metadata)) x.phase
  | .scorePriority report category =>
    s.returnValue a (.text (scorePriority category report.description report.metadata))
      x.phase
  | .decideReview category priorityLevel confidence =>
    s.returnValue a (.flag (decideRequiresReview category priorityLevel confidence)) x.phase
  | .persistClassification reportId category priorityLevel requiresReview confidence summary =>
    s.upsertThenReturn a (.classification ⟨reportId, category, priorityLevel, requiresReview,
      confidence, summary, routeToQueue category⟩) (.text (routeToQueue category)) input x.phase
  | .routeQueue reportId queueName =>
    s.upsertThenReturn a (.queueItem ⟨reportId, queueName⟩) .null input x.phase
  | .publishTriageEvents reportId category priorityLevel requiresReview confidence queueName =>
    s.publishTriageEventsActivity a reportId category priorityLevel requiresReview confidence
      queueName input x.phase
  | .markReportClassified reportId => s.updateReportStatus a reportId .classified input x.phase
  | .markReportFailed reportId => s.updateReportStatus a reportId .failed input x.phase

omit [UnicodeData] in
/-- Attempt `a` fails where it is: an exception, a lost connection, the end of its worker. An
open transaction is rolled back. -/
def failAttempt (a : ℕ) (e : Failure) : Option System := do
  let x ← s.attempts[a]?
  match x.phase, x.activity.upsertCall with
  | .finished _, _ => none
  | .upserting t, some (call, _) => (s.upserts.step (call.fail t)).map fun u =>
      { s.setPhase a (.finished (.error e)) with upserts := u }
  | _, _ => some (s.setPhase a (.finished (.error e)))

end System

/-! ## The machine -/

inductive Action
  | arrive (endpoint : Endpoint)
  | lookup (q : ℕ)
  | insert (q : ℕ) (reportId : String) (now : Time)
  | commitInsert (q : ℕ) (raises : Bool)
  | relookup (q : ℕ)
  | loadForReprocess (q : ℕ)
  | commitReset (q : ℕ) (now : Time) (raises : Bool)
  | start (q : ℕ) (outcome : StartOutcome)
  | loadStartFailed (q : ℕ)
  | commitStartFailed (q : ℕ) (now : Time)
  | dropStartFailed (q : ℕ)
  | fail (q : ℕ)
  | stop (q : ℕ)
  | schedule (ρ : ℕ)
  | complete (ρ : ℕ)
  | timeout (ρ : ℕ)
  | exec (a : ℕ) (input : System.Input)
  | failAttempt (a : ℕ) (e : Failure)

namespace System
variable [UnicodeData]

def step (s : System) : Action → Option System
  | .arrive endpoint => some (s.arrive endpoint)
  | .lookup q => s.lookup q
  | .insert q reportId now => s.insert q reportId now
  | .commitInsert q raises => s.commitInsert q raises
  | .relookup q => s.relookup q
  | .loadForReprocess q => s.loadForReprocess q
  | .commitReset q now raises => s.commitReset q now raises
  | .start q outcome => s.start q outcome
  | .loadStartFailed q => s.loadStartFailed q
  | .commitStartFailed q now => s.commitStartFailed q now
  | .dropStartFailed q => s.dropStartFailed q
  | .fail q => s.fail q
  | .stop q => s.stop q
  | .schedule ρ => s.schedule ρ
  | .complete ρ => s.complete ρ
  | .timeout ρ => s.timeout ρ
  | .exec a input => s.exec a input
  | .failAttempt a e => s.failAttempt a e

/-- The system, from an empty database. -/
def machine : Machine System Action where
  init s := s = empty
  step := step

end System

/-! ## A report to run

The runs exhibited later are about one report, in an environment where statements succeed
unless the run says otherwise. -/

namespace Sample

def payload : ReportCreateRequest :=
  { reporterId := "u1"
    targetType := "listing"
    targetId := "l1"
    reasonCode := "spam"
    description := "광고"
    sourceChannel := "marketplace"
    metadata := [] }

def input (now : Time) : System.Input :=
  { now := now, newId := "x", commitRaises := none, delivery := .acked now, driverText := "" }

/-- Create report `id` with request `q`, and start a run of it. -/
def create (q : ℕ) (id : String) : List Action :=
  [.arrive (.create payload none), .insert q id 1, .commitInsert q false, .start q .accepted]

/-- Run `ρ` has attempt `i` executed, by `n` statements, and completes it. -/
def activity (ρ i n : ℕ) : List Action :=
  [.schedule ρ] ++ List.replicate n (.exec i (input 2)) ++ [.complete ρ]

/-- Run `ρ` from its start to its end, with attempts from `i` on. -/
def cleanRun (ρ i : ℕ) : List Action :=
  activity ρ i 1 ++ activity ρ (i + 1) 2 ++ activity ρ (i + 2) 1 ++ activity ρ (i + 3) 1 ++
    activity ρ (i + 4) 1 ++ activity ρ (i + 5) 4 ++ activity ρ (i + 6) 4 ++ activity ρ (i + 7) 2 ++
    activity ρ (i + 8) 2

end Sample

end ReportTriage

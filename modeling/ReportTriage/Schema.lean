import Mathlib.Data.Rat.Defs

/-!
# Stored and transmitted data

The rows of the three tables, the request body they come from, and the messages of the
stream, with the columns and fields the code declares. Columns the schema leaves open are
strings here too: `reports.status` is a text column, and `ReportStatus` is what the code
writes into it. A timestamp is a number of microseconds since the epoch.
-/

namespace ReportTriage

/-- The times of `datetime` in UTC, as microseconds since the epoch: the last one is in year
9999. -/
abbrev Time := Fin 253402300800000000

/-- For the literals of times. -/
instance (priority := 2000) instNeZeroTime :
    @NeZero ℕ (@Zero.ofOfNat0 ℕ (instOfNatNat (nat_lit 0))) 253402300800000000 :=
  ⟨by decide⟩

/-- Times and spans on the clock of the NATS server, in microseconds. -/
abbrev ServerTime := ℕ

/-! ## JSON objects -/

/-- A value `json` decodes to. A float is carried by the text Python prints for it, which
identifies it. -/
inductive PyVal
  | none
  | bool (b : Bool)
  | int (n : ℤ)
  | float (repr : String)
  | str (s : String)
  | list (items : List PyVal)
  | dict (entries : List (String × PyVal))
  deriving Repr

/-- A JSON object, in the order of its entries. -/
abbrev Metadata := List (String × PyVal)

/-- `d.get(key)`. -/
def Metadata.get (m : Metadata) (key : String) : Option PyVal := m.lookup key

/-- `bool(v)`. -/
def PyVal.truthy : PyVal → Bool
  | .none => false
  | .bool b => b
  | .int n => n != 0
  | .float repr => repr != "0.0" && repr != "-0.0"
  | .str s => s != ""
  | .list items => !items.isEmpty
  | .dict entries => !entries.isEmpty

/-! ## `reports` -/

/-- What the code writes into `reports.status`. -/
inductive ReportStatus
  | queued
  | processing
  | classified
  | failed
  | workflowStartFailed
  deriving DecidableEq, Repr

/-- The stored text of a status. -/
def ReportStatus.value : ReportStatus → String
  | .queued => "queued"
  | .processing => "processing"
  | .classified => "classified"
  | .failed => "failed"
  | .workflowStartFailed => "workflow_start_failed"

theorem ReportStatus.value_injective : Function.Injective ReportStatus.value := by
  intro a b h
  cases a <;> cases b <;> first | rfl | exact absurd h (by decide)

@[simp] theorem ReportStatus.value_inj {a b : ReportStatus} : a.value = b.value ↔ a = b :=
  ReportStatus.value_injective.eq_iff

/-- The body of `POST /reports`. -/
structure ReportCreateRequest where
  reporterId : String
  targetType : String
  targetId : String
  reasonCode : String
  description : String
  sourceChannel : String
  metadata : Metadata

/-- A row of `reports`. -/
structure Report where
  id : String
  reporterId : String
  targetType : String
  targetId : String
  reasonCode : String
  description : String
  sourceChannel : String
  metadata : Metadata
  idempotencyKey : Option String
  status : String
  createdAt : Time
  updatedAt : Time

/-- What `load_report_activity` hands to the rules: the part of a report that no write
touches after it is created. -/
structure LoadedReport where
  reportId : String
  reasonCode : String
  description : String
  metadata : Metadata

def Report.load (r : Report) : LoadedReport :=
  ⟨r.id, r.reasonCode, r.description, r.metadata⟩

/-! ## `report_classifications` and `review_queue_items` -/

/-- A row of `report_classifications`. -/
structure ReportClassification where
  id : String
  reportId : String
  category : String
  priority : String
  requiresReview : Bool
  confidence : ℚ
  reasoningSummary : String
  routedQueue : String
  createdAt : Time
  updatedAt : Time
  deriving DecidableEq, Repr

/-- A row of `review_queue_items`. -/
structure ReviewQueueItem where
  id : String
  reportId : String
  queueName : String
  queueStatus : String
  assignedTo : Option String
  enqueuedAt : Time
  updatedAt : Time
  deriving DecidableEq, Repr

/-! ## The stream -/

def subjectReportTriaged : String := "report.triaged"
def subjectQueueRouted : String := "queue.routed"

/-- `DUPLICATE_WINDOW_SECONDS`, in microseconds. -/
def duplicateWindow : ServerTime := 120 * 1000000

structure TriagedEvent where
  reportId : String
  category : String
  priority : String
  requiresReview : Bool
  confidence : ℚ
  occurredAt : Time
  deriving DecidableEq, Repr

structure QueueRoutedEvent where
  reportId : String
  queueName : String
  queueStatus : String
  occurredAt : Time
  deriving DecidableEq, Repr

/-- The two payloads; `event_type` is the constructor. -/
inductive Payload
  | triaged (event : TriagedEvent)
  | queueRouted (event : QueueRoutedEvent)
  deriving DecidableEq, Repr

/-- A message stored in the stream. -/
structure Message where
  subject : String
  msgId : String
  payload : Payload
  storedAt : ServerTime
  deriving DecidableEq, Repr

end ReportTriage

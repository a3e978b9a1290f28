import ReportTriage.Lib.Validated
import ReportTriage.Text

/-!
# Request and response models

The models of `schemas/reports.py`, each built by checking all of its fields. A field declared
with `Literal[...]` holds one of the texts it allows, and none other can be put there; the
tables have plain text columns, so a response has to be checked as a request has.

## Main definitions

* `Literal`, `FieldError` — closed sets of texts, and what a check reports.
* `validateReportPayload`, `validateReportCreateRequest` — the models with the report's fields.
* `Closed`, `validateReportPayload_of_closed` — when the former accepts what is stored.
-/

namespace ReportTriage

/-! ## Fields -/

def targetTypes : List String :=
  ["listing", "user", "chat_message", "post", "comment", "transaction"]

def reasonCodes : List String :=
  ["spam", "fraud_suspected", "abusive_language", "policy_violation", "scam_link", "other"]

def sourceChannels : List String := ["marketplace", "community", "chat", "profile"]

def categories : List String := ["fraud", "spam", "abuse", "policy", "general"]

def priorities : List String := ["low", "medium", "high", "critical"]

def queueStatuses : List String := ["pending", "assigned", "done"]

/-- `Literal[...]`. -/
abbrev Literal (allowed : List String) : Type := { v : String // v ∈ allowed }

inductive ErrorType
  | missing
  | stringType
  | dictType
  | modelAttributesType
  | literalError (allowed : List String)
  | enum (allowed : List String)
  /-- A validator of the model raised `ValueError`. -/
  | valueError (message : String)
  deriving DecidableEq, Repr

structure FieldError where
  loc : String
  type : ErrorType
  deriving DecidableEq, Repr

abbrev Checked (α : Type) : Type := Validated FieldError α

def checkString (loc : String) : PyVal → Checked String
  | .str s => .ok s
  | _ => .error ⟨loc, .stringType⟩

def checkLiteral (allowed : List String) (loc : String) : PyVal → Checked (Literal allowed)
  | .str s => if h : s ∈ allowed then .ok ⟨s, h⟩ else .error ⟨loc, .literalError allowed⟩
  | _ => .error ⟨loc, .literalError allowed⟩

def checkDict (loc : String) : PyVal → Checked Metadata
  | .dict entries => .ok entries
  | _ => .error ⟨loc, .dictType⟩

/-- The members of `ReportStatus`. -/
def ReportStatus.members : List ReportStatus :=
  [.queued, .processing, .classified, .failed, .workflowStartFailed]

def checkStatus (loc : String) : PyVal → Checked ReportStatus
  | .str s =>
    match ReportStatus.members.find? fun status => status.value = s with
    | some status => .ok status
    | none => .error ⟨loc, .enum (ReportStatus.members.map ReportStatus.value)⟩
  | _ => .error ⟨loc, .enum (ReportStatus.members.map ReportStatus.value)⟩

theorem checkLiteral_of_mem {allowed : List String} {s : String} (h : s ∈ allowed) (loc : String) :
    checkLiteral allowed loc (.str s) = .ok ⟨s, h⟩ := dif_pos h

theorem checkStatus_value (loc : String) (status : ReportStatus) :
    checkStatus loc (.str status.value) = .ok status := by
  cases status <;> rfl

/-- A field without a default. -/
def required {α : Type} (fields : Metadata) (loc : String) (check : String → PyVal → Checked α) :
    Checked α :=
  match fields.get loc with
  | some v => check loc v
  | none => .error ⟨loc, .missing⟩

/-- A field with a default, which is not checked. -/
def optional {α : Type} (fields : Metadata) (loc : String) (default : α)
    (check : String → PyVal → Checked α) : Checked α :=
  match fields.get loc with
  | some v => check loc v
  | none => .ok default

/-! ## `ReportPayload` and `ReportCreateRequest` -/

structure ReportPayload where
  reporterId : String
  targetType : Literal targetTypes
  targetId : String
  reasonCode : Literal reasonCodes
  description : String
  sourceChannel : Literal sourceChannels
  metadata : Metadata

/-- The fields of `ReportPayload`, with the check of `description` that the model makes. -/
def validateFields (checkDescription : String → PyVal → Checked String) (fields : Metadata) :
    Checked ReportPayload :=
  ReportPayload.mk <$> required fields "reporter_id" checkString
    <*> required fields "target_type" (checkLiteral targetTypes)
    <*> required fields "target_id" checkString
    <*> required fields "reason_code" (checkLiteral reasonCodes)
    <*> required fields "description" checkDescription
    <*> required fields "source_channel" (checkLiteral sourceChannels)
    <*> optional fields "metadata" [] checkDict

def validateReportPayload (fields : Metadata) : Checked ReportPayload :=
  validateFields checkString fields

/-- `str.isspace` of one character. -/
def isSpace (c : Char) : Bool :=
  let n := c.toNat
  9 ≤ n && n ≤ 13 || 28 ≤ n && n ≤ 32 || n = 0x85 || n = 0xA0 || n = 0x1680 ||
    0x2000 ≤ n && n ≤ 0x200A || n = 0x2028 || n = 0x2029 || n = 0x202F || n = 0x205F || n = 0x3000

/-- `s.strip()`. -/
def strip (s : String) : String :=
  String.ofList ((s.toList.dropWhile isSpace).reverse.dropWhile isSpace).reverse

/-- `_non_empty_description`, after the field has been found to be a text. -/
def nonEmptyDescription (loc : String) (v : PyVal) : Checked String :=
  match checkString loc v with
  | .ok s =>
    if s = "" ∨ strip s = "" then .error ⟨loc, .valueError "description must not be empty"⟩
    else .ok s
  | .errors first rest => .errors first rest

/-- `ReportCreateRequest`, from the body of a request. -/
def validateReportCreateRequest : PyVal → Checked ReportPayload
  | .dict fields => validateFields nonEmptyDescription fields
  | _ => .error ⟨"body", .modelAttributesType⟩

/-- The request a validated model is. -/
def ReportPayload.request (p : ReportPayload) : ReportCreateRequest :=
  ⟨p.reporterId, p.targetType, p.targetId, p.reasonCode, p.description, p.sourceChannel, p.metadata⟩

/-- The fields a request has, as keyword arguments. -/
def ReportCreateRequest.fields (r : ReportCreateRequest) : Metadata :=
  [("reporter_id", .str r.reporterId), ("target_type", .str r.targetType),
    ("target_id", .str r.targetId), ("reason_code", .str r.reasonCode),
    ("description", .str r.description), ("source_channel", .str r.sourceChannel),
    ("metadata", .dict r.metadata)]

/-- The texts of its closed fields are among those allowed. -/
structure ReportCreateRequest.Closed (r : ReportCreateRequest) : Prop where
  targetType : r.targetType ∈ targetTypes
  reasonCode : r.reasonCode ∈ reasonCodes
  sourceChannel : r.sourceChannel ∈ sourceChannels

theorem ReportPayload.closed_request (p : ReportPayload) : p.request.Closed :=
  ⟨p.targetType.2, p.reasonCode.2, p.sourceChannel.2⟩

theorem validateFields_of_closed {r : ReportCreateRequest} (h : r.Closed)
    {checkDescription : String → PyVal → Checked String}
    (hdescription : checkDescription "description" (.str r.description) = .ok r.description) :
    ∃ p, validateFields checkDescription r.fields = .ok p ∧ p.request = r := by
  refine ⟨⟨r.reporterId, ⟨_, h.targetType⟩, r.targetId, ⟨_, h.reasonCode⟩, r.description,
    ⟨_, h.sourceChannel⟩, r.metadata⟩, ?_, rfl⟩
  have hreporter : required r.fields "reporter_id" checkString = .ok r.reporterId := rfl
  have htarget : required r.fields "target_type" (checkLiteral targetTypes) =
      .ok ⟨_, h.targetType⟩ := checkLiteral_of_mem h.targetType _
  have htargetId : required r.fields "target_id" checkString = .ok r.targetId := rfl
  have hreason : required r.fields "reason_code" (checkLiteral reasonCodes) =
      .ok ⟨_, h.reasonCode⟩ := checkLiteral_of_mem h.reasonCode _
  have htext : required r.fields "description" checkDescription = .ok r.description := hdescription
  have hchannel : required r.fields "source_channel" (checkLiteral sourceChannels) =
      .ok ⟨_, h.sourceChannel⟩ := checkLiteral_of_mem h.sourceChannel _
  have hmetadata : optional r.fields "metadata" [] checkDict = .ok r.metadata := rfl
  rw [validateFields, hreporter, htarget, htargetId, hreason, htext, hchannel, hmetadata]
  simp only [Validated.map_ok, Validated.ok_seq_ok]

/-- **What is stored of a validated request reads back.** -/
theorem validateReportPayload_of_closed {r : ReportCreateRequest} (h : r.Closed) :
    ∃ p, validateReportPayload r.fields = .ok p ∧ p.request = r :=
  validateFields_of_closed h rfl

end ReportTriage

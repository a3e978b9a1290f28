import ReportTriage.Columns
import ReportTriage.Payloads
import ReportTriage.System

/-!
# What is accepted and what is stored

`POST /reports` validates the body, looks the key up and inserts a row. Validation closes three
fields and asks of the description that it is not blank; of the other texts it asks nothing, and
of the header neither. The columns ask for more, and a value they do not take is a `DataError`,
of which `create_report` knows nothing.

## Main definitions

* `validateBody`, `postReport` — the endpoint, from a body of any code points.
* `Accommodated` — whatever the tables hold, no value of the request is an error.
* `Storable`, `accommodated_iff` — when that is so.
-/

namespace ReportTriage

/-! ## Validation -/

/-- `ReportCreateRequest`, with its texts as Python has them. -/
structure AcceptedRequest where
  reporterId : PyText
  targetType : Literal targetTypes
  targetId : PyText
  reasonCode : Literal reasonCodes
  description : PyText
  sourceChannel : Literal sourceChannels
  metadata : JsonObject

namespace JsonVal

def checkString (loc : String) : JsonVal → Checked PyText
  | .str s => .ok s
  | _ => .error ⟨loc, .stringType⟩

def checkLiteral (allowed : List String) (loc : String) : JsonVal → Checked (Literal allowed)
  | .str s =>
    match allowed.attach.find? fun t => pyText t.val = s with
    | some t => .ok t
    | none => .error ⟨loc, .literalError allowed⟩
  | _ => .error ⟨loc, .literalError allowed⟩

def checkDict (loc : String) : JsonVal → Checked JsonObject
  | .dict entries => .ok entries
  | _ => .error ⟨loc, .dictType⟩

/-- `str.isspace` of one code point. -/
def isSpacePoint : CodePoint → Bool
  | .char c => isSpace c
  | .surrogate _ => false

/-- `s.strip()`. -/
def strip (s : PyText) : PyText :=
  ((s.dropWhile isSpacePoint).reverse.dropWhile isSpacePoint).reverse

/-- `_non_empty_description`, after the field has been found to be a text. -/
def nonEmptyDescription (loc : String) (v : JsonVal) : Checked PyText :=
  (checkString loc v).andThen fun s =>
    if s = [] ∨ strip s = [] then .error ⟨loc, .valueError "description must not be empty"⟩
    else .ok s

/-- A field without a default. -/
def required {α : Type} (fields : JsonObject) (loc : String)
    (check : String → JsonVal → Checked α) : Checked α :=
  match fields.lookup (pyText loc) with
  | some v => check loc v
  | none => .error ⟨loc, .missing⟩

/-- A field with a default, which is not checked. -/
def optional {α : Type} (fields : JsonObject) (loc : String) (default : α)
    (check : String → JsonVal → Checked α) : Checked α :=
  match fields.lookup (pyText loc) with
  | some v => check loc v
  | none => .ok default

end JsonVal

/-- `ReportCreateRequest`, from the body of a request. -/
def validateBody : JsonVal → Checked AcceptedRequest
  | .dict fields => AcceptedRequest.mk <$> JsonVal.required fields "reporter_id" JsonVal.checkString
      <*> JsonVal.required fields "target_type" (JsonVal.checkLiteral targetTypes)
      <*> JsonVal.required fields "target_id" JsonVal.checkString
      <*> JsonVal.required fields "reason_code" (JsonVal.checkLiteral reasonCodes)
      <*> JsonVal.required fields "description" JsonVal.nonEmptyDescription
      <*> JsonVal.required fields "source_channel" (JsonVal.checkLiteral sourceChannels)
      <*> JsonVal.optional fields "metadata" [] JsonVal.checkDict
  | _ => .error ⟨"body", .modelAttributesType⟩

/-! ## The endpoint -/

/-- `new_report_id`, of six random bytes. -/
def newReportId (token : ℕ) : String := "rpt_" ++ String.ofList (hexDigits 12 token)

section
variable [PostgresLimits]

/-- What the columns hold of a request. -/
def storedRequest (r : AcceptedRequest) : Option ReportCreateRequest := do
  let reporterId ← varcharValue 64 r.reporterId
  let targetType ← varcharValue 32 (pyText r.targetType)
  let targetId ← varcharValue 64 r.targetId
  let reasonCode ← varcharValue 32 (pyText r.reasonCode)
  let description ← textValue r.description
  let sourceChannel ← varcharValue 32 (pyText r.sourceChannel)
  let metadata ← jsonbValue r.metadata
  return ⟨reporterId, targetType, targetId, reasonCode, description, sourceChannel, metadata⟩

/-- What `idempotency_key` holds, which may be NULL. -/
def storedKey : Option PyText → Option (Option String)
  | none => some none
  | some key => (varcharValue 64 key).map some

/-- The row that the INSERT of `reports_repo.create_report` makes. -/
def insertedRow (r : AcceptedRequest) (reportId : String) (key : Option PyText) (now : Time) :
    Option Report := do
  let reportId ← varcharValue 32 (pyText reportId)
  let request ← storedRequest r
  let key ← storedKey key
  let status ← varcharValue 32 (pyText ReportStatus.queued.value)
  return { createReport request reportId key now with status := status }

/-- `find_report_by_idempotency_key`, whose parameter is a text. -/
def findReport (reports : List Report) (key : PyText) : Option (Option Report) :=
  (textValue key).map fun key => reports.find? fun r => r.idempotencyKey = some key

/-- How the part of `create_report` before its start call ends. -/
inductive CreateOutcome
  | replayed (existing : Report)
  | committed (row : Report)
  /-- The conflict of a request without a key, or of one whose key is nowhere to be found. -/
  | integrityError
  /-- A statement does not take a value, or `json.dumps` cannot write it. -/
  | dataError

/-- `reports` at each statement of a request, and what the request draws from its environment. -/
structure Surroundings where
  atLookup : List Report
  atInsert : List Report
  atRelookup : List Report
  token : ℕ
  now : Time

/-- The first lookup, made for a key only. -/
def lookupKey (reports : List Report) : Option PyText → Option (Option Report)
  | none => some none
  | some key => findReport reports key

/-- `create_report`, up to its commit. -/
def createUpToCommit (r : AcceptedRequest) (key : Option PyText) (e : Surroundings) :
    CreateOutcome :=
  match lookupKey e.atLookup key with
  | none => .dataError
  | some (some existing) => .replayed existing
  | some none =>
    match insertedRow r (newReportId e.token) key e.now with
    | none => .dataError
    | some row =>
      if ∃ other ∈ e.atInsert, other.Collides row then
        match key with
        | none => .integrityError
        | some key =>
          match findReport e.atRelookup key with
          | none => .dataError
          | some none => .integrityError
          | some (some existing) => .replayed existing
      else .committed row

inductive PostOutcome
  /-- The 422. -/
  | unprocessable (first : FieldError) (rest : List FieldError)
  | handled (outcome : CreateOutcome)

/-- `POST /reports`, with the `Idempotency-Key` header. -/
def postReport (body : JsonVal) (key : Option PyText) (e : Surroundings) : PostOutcome :=
  match validateBody body with
  | .ok r => .handled (createUpToCommit r key e)
  | .errors first rest => .unprocessable first rest

/-! ## When no value is an error -/

/-- Whatever the tables hold, no statement refuses a value of the request; and if it is accepted,
the lookup finds nothing and no row is in the way, then it reaches its commit. -/
structure Accommodated (body : JsonVal) (key : Option PyText) : Prop where
  noDataError : ∀ e, postReport body key e ≠ .handled .dataError
  commits : ∀ r e, validateBody body = .ok r →
    (∀ existing, lookupKey e.atLookup key ≠ some (some existing)) →
    (∀ row, insertedRow r (newReportId e.token) key e.now = some row →
      ∀ other ∈ e.atInsert, ¬ other.Collides row) →
    ∃ row, postReport body key e = .handled (.committed row)

/-- The texts that validation leaves open fit their columns, and so does the key. -/
structure Storable (r : AcceptedRequest) (key : Option PyText) : Prop where
  reporterId : FitsVarchar 64 r.reporterId
  targetId : FitsVarchar 64 r.targetId
  description : FitsText r.description
  metadata : FitsJsonb r.metadata
  key : ∀ k ∈ key, FitsVarchar 64 k

/-- At most 64 characters, among them no NUL. -/
def Short (s : PyText) : Prop := s.length ≤ 64 ∧ Writable s

theorem Short.fitsVarchar {s : PyText} (h : Short s) : FitsVarchar 64 s := by
  refine ⟨⟨h.2, PostgresLimits.textFits_of_length s h.1⟩, ?_⟩
  rw [List.drop_of_length_le h.1]
  rintro c ⟨⟩

omit [PostgresLimits] in
theorem writableEntries_of_short {entries : JsonObject}
    (h : ∀ e ∈ entries, Short e.1 ∧ ∃ s : PyText, e.2 = .str s ∧ Short s) :
    WritableEntries entries := by
  induction entries with
  | nil => trivial
  | cons entry entries ih =>
    obtain ⟨⟨hkey, s, hvalue, hs⟩, hrest⟩ := List.forall_mem_cons.mp h
    obtain ⟨k, v⟩ := entry
    obtain rfl : v = .str s := hvalue
    refine ⟨?_, ?_, ih hrest⟩
    · rw [pairSurrogates_of_writable hkey.2]
      exact hkey.2
    · rw [JsonVal.Writable, pairSurrogates_of_writable hs.2]
      exact hs.2

/-- Whatever the limits of the server are, a request of short texts can be stored. -/
theorem storable_of_short {r : AcceptedRequest} {key : Option PyText}
    (hreporter : Short r.reporterId) (htarget : Short r.targetId)
    (hdescription : Short r.description) (hlength : r.metadata.length ≤ 64)
    (hmetadata : ∀ e ∈ r.metadata, Short e.1 ∧ ∃ s : PyText, e.2 = .str s ∧ Short s)
    (hkey : ∀ k ∈ key, Short k) : Storable r key where
  reporterId := hreporter.fitsVarchar
  targetId := htarget.fitsVarchar
  description := hdescription.fitsVarchar.1
  metadata := by
    refine ⟨writableEntries_of_short hmetadata,
      PostgresLimits.jsonbFits_of_length r.metadata hlength fun e he => ?_⟩
    obtain ⟨hname, s, hs, hvalue⟩ := hmetadata e he
    exact ⟨hname.1, s, hs, hvalue.1⟩
  key k hk := (hkey k hk).fitsVarchar

/-- A short text without NUL is held as it is. -/
theorem varcharValue_short {n : ℕ} {s : String} (hnul : nul ∉ s.toList)
    (hlength : s.toList.length ≤ n) (hn : n ≤ 64) : varcharValue n (pyText s) = some s := by
  have hle : (pyText s).length ≤ 64 := by
    rw [pyText, List.length_map]
    exact hlength.trans hn
  have htext : FitsText (pyText s) := by
    refine ⟨?_, PostgresLimits.textFits_of_length _ hle⟩
    rw [Writable, pyText, List.forall_mem_map]
    intro c hc
    exact ⟨c, rfl, fun h => hnul (h ▸ hc)⟩
  rw [varcharValue_pyText (fitsVarchar_of_length htext hlength), cutSpaces_of_length hlength]

omit [PostgresLimits] in
theorem nul_not_mem_hexDigits (width n : ℕ) : nul ∉ hexDigits width n := by
  have hdigit : ∀ d < 16, Nat.digitChar d ≠ nul := by decide
  simp only [hexDigits, List.mem_map, not_exists, not_and]
  intro i _
  exact hdigit _ (Nat.mod_lt _ (by decide))

theorem varcharValue_newReportId (token : ℕ) :
    varcharValue 32 (pyText (newReportId token)) = some (newReportId token) := by
  have hrpt : nul ∉ "rpt_".toList ∧ "rpt_".toList.length = 4 := by decide
  have hchars : (newReportId token).toList = "rpt_".toList ++ hexDigits 12 token := by
    rw [newReportId, String.toList_append, String.toList_ofList (l := hexDigits 12 token)]
  refine varcharValue_short ?_ ?_ (by decide)
  · rw [hchars, List.mem_append, not_or]
    exact ⟨hrpt.1, nul_not_mem_hexDigits 12 token⟩
  · rw [hchars, List.length_append, hrpt.2, hexDigits, List.length_map, List.length_reverse,
      List.length_range]
    decide

/-- The columns of the closed fields, and of the status, are wide enough for what goes there. -/
theorem varcharValue_literal {s : String} (h : s ∈ targetTypes ∨ s ∈ reasonCodes ∨
    s ∈ sourceChannels ∨ s = ReportStatus.queued.value) : varcharValue 32 (pyText s) = some s := by
  have hall : ∀ t ∈ targetTypes ++ reasonCodes ++ sourceChannels ++ [ReportStatus.queued.value],
      nul ∉ t.toList ∧ t.toList.length ≤ 32 := by decide
  obtain ⟨hnul, hlength⟩ := hall s (by simp; tauto)
  exact varcharValue_short hnul hlength (by decide)

/-- The closed fields are held as they are, so that the open ones decide. -/
theorem storedRequest_eq (r : AcceptedRequest) : storedRequest r = (do
    let reporterId ← varcharValue 64 r.reporterId
    let targetId ← varcharValue 64 r.targetId
    let description ← textValue r.description
    let metadata ← jsonbValue r.metadata
    return ⟨reporterId, r.targetType, targetId, r.reasonCode, description, r.sourceChannel,
      metadata⟩) := by
  simp only [storedRequest, varcharValue_literal (.inl r.targetType.2),
    varcharValue_literal (.inr (.inl r.reasonCode.2)),
    varcharValue_literal (.inr (.inr (.inl r.sourceChannel.2)))]
  rfl

theorem isSome_storedRequest {r : AcceptedRequest} : (storedRequest r).isSome = true ↔
    FitsVarchar 64 r.reporterId ∧ FitsVarchar 64 r.targetId ∧ FitsText r.description ∧
      FitsJsonb r.metadata := by
  rw [storedRequest_eq, ← isSome_varcharValue, ← isSome_varcharValue, ← isSome_textValue,
    ← isSome_jsonbValue]
  cases varcharValue 64 r.reporterId <;> cases varcharValue 64 r.targetId <;>
    cases textValue r.description <;> cases jsonbValue r.metadata <;> simp

theorem isSome_storedKey {key : Option PyText} :
    (storedKey key).isSome = true ↔ ∀ k ∈ key, FitsVarchar 64 k := by
  cases key with
  | none => simp [storedKey]
  | some k => simp [storedKey, isSome_varcharValue]

/-- The id and the status are held as they are, and the request and the key decide. -/
theorem insertedRow_eq (r : AcceptedRequest) (token : ℕ) (key : Option PyText) (now : Time) :
    insertedRow r (newReportId token) key now = (do
      let request ← storedRequest r
      let key ← storedKey key
      return createReport request (newReportId token) key now) := by
  simp only [insertedRow, varcharValue_newReportId,
    varcharValue_literal (.inr (.inr (.inr rfl)))]
  rfl

theorem isSome_insertedRow {r : AcceptedRequest} {key : Option PyText} (token : ℕ) (now : Time) :
    (insertedRow r (newReportId token) key now).isSome = true ↔ Storable r key := by
  have hrow : (insertedRow r (newReportId token) key now).isSome = true ↔
      (storedRequest r).isSome = true ∧ (storedKey key).isSome = true := by
    rw [insertedRow_eq]
    cases storedRequest r <;> cases storedKey key <;> simp
  rw [hrow, isSome_storedRequest, isSome_storedKey]
  constructor
  · rintro ⟨⟨hreporter, htarget, hdescription, hmetadata⟩, hkey⟩
    exact ⟨hreporter, htarget, hdescription, hmetadata, hkey⟩
  · intro h
    exact ⟨⟨h.reporterId, h.targetId, h.description, h.metadata⟩, h.key⟩

/-- The key, as a parameter of the lookups. -/
theorem findReport_ne_none {reports : List Report} {k : PyText} (h : FitsVarchar 64 k) :
    findReport reports k ≠ none := by
  have htext := isSome_textValue.mpr h.1
  rw [findReport, Ne, Option.map_eq_none_iff]
  intro hnone
  rw [hnone] at htext
  cases htext

theorem createUpToCommit_ne_dataError {r : AcceptedRequest} {key : Option PyText}
    (h : Storable r key) (e : Surroundings) : createUpToCommit r key e ≠ .dataError := by
  have hlookup : lookupKey e.atLookup key ≠ none := by
    cases key with
    | none => nofun
    | some k => exact findReport_ne_none (h.key k rfl)
  obtain ⟨row, hrow⟩ := Option.isSome_iff_exists.mp ((isSome_insertedRow e.token e.now).mpr h)
  cases hfirst : lookupKey e.atLookup key with
  | none => exact absurd hfirst hlookup
  | some found =>
    cases found with
    | some existing => simp [createUpToCommit, hfirst]
    | none =>
      simp only [createUpToCommit, hfirst, hrow]
      by_cases hcollides : ∃ other ∈ e.atInsert, other.Collides row
      · rw [if_pos hcollides]
        cases key with
        | none => nofun
        | some k =>
          cases hsecond : findReport e.atRelookup k with
          | none => exact absurd hsecond (findReport_ne_none (h.key k rfl))
          | some found => cases found <;> simp [hsecond]
      · rw [if_neg hcollides]
        nofun

/-- Where all tables are empty, a request that is not storable fails. -/
theorem createUpToCommit_empty {r : AcceptedRequest} {key : Option PyText}
    (h : ¬ Storable r key) : createUpToCommit r key ⟨[], [], [], 0, 0⟩ = .dataError := by
  have hrow : insertedRow r (newReportId 0) key 0 = none := by
    rw [← Option.not_isSome_iff_eq_none, isSome_insertedRow]
    exact h
  cases hlookup : lookupKey [] key with
  | none => simp only [createUpToCommit, hlookup]
  | some found =>
    cases found with
    | none => simp only [createUpToCommit, hlookup, hrow]
    | some existing =>
      cases key with
      | none => cases hlookup
      | some k =>
        obtain ⟨t, -, hfind⟩ := Option.map_eq_some_iff.mp hlookup
        cases hfind

/-- A storable request that nothing stands in the way of reaches its commit. -/
theorem createUpToCommit_committed {r : AcceptedRequest} {key : Option PyText} {e : Surroundings}
    {row : Report} (h : Storable r key)
    (hrow : insertedRow r (newReportId e.token) key e.now = some row)
    (hnew : ∀ existing, lookupKey e.atLookup key ≠ some (some existing))
    (hfree : ∀ other ∈ e.atInsert, ¬ other.Collides row) :
    createUpToCommit r key e = .committed row := by
  have hcollides : ¬ ∃ other ∈ e.atInsert, other.Collides row := by
    rintro ⟨other, hother, hcollides⟩
    exact hfree other hother hcollides
  have hne := createUpToCommit_ne_dataError h e
  cases hlookup : lookupKey e.atLookup key with
  | none => simp [createUpToCommit, hlookup] at hne
  | some found =>
    cases found with
    | none => simp only [createUpToCommit, hlookup, hrow, if_neg hcollides]
    | some existing => exact absurd hlookup (hnew existing)

theorem postReport_of_ok {body : JsonVal} {r : AcceptedRequest} (h : validateBody body = .ok r)
    (key : Option PyText) (e : Surroundings) :
    postReport body key e = .handled (createUpToCommit r key e) := by
  rw [postReport, h]

/-- **Which requests are accommodated.** Whatever is in the table at each statement, no value of
a request is an error, and an accepted request reaches its commit where no key stands in its way,
if and only if the open texts of an accepted body and the key fit their columns. -/
theorem accommodated_iff (body : JsonVal) (key : Option PyText) :
    Accommodated body key ↔ ∀ r, validateBody body = .ok r → Storable r key := by
  constructor
  · intro h r hr
    by_contra hnot
    refine h.noDataError ⟨[], [], [], 0, 0⟩ ?_
    rw [postReport_of_ok hr, createUpToCommit_empty hnot]
  · intro h
    constructor
    · intro e
      cases hr : validateBody body with
      | errors first rest =>
        rw [postReport, hr]
        nofun
      | ok r =>
        rw [postReport_of_ok hr, Ne, PostOutcome.handled.injEq]
        exact createUpToCommit_ne_dataError (h r hr) e
    · intro r e hr hnew hfree
      obtain ⟨row, hrow⟩ :=
        Option.isSome_iff_exists.mp ((isSome_insertedRow e.token e.now).mpr (h r hr))
      refine ⟨row, ?_⟩
      rw [postReport_of_ok hr, createUpToCommit_committed (h r hr) hrow hnew (hfree row hrow)]

end

/-- A server whose limits nothing here comes near. -/
@[reducible] def unlimited : PostgresLimits := ⟨fun _ => true, fun _ => true, fun _ _ => rfl,
  fun _ _ _ => rfl⟩

/-- A body that names a reporter of this many characters. -/
def Sample.longBody (n : ℕ) : JsonVal :=
  .dict [(pyText "reporter_id", .str (List.replicate n (.char 'a'))),
    (pyText "target_type", .str (pyText "listing")), (pyText "target_id", .str (pyText "l1")),
    (pyText "reason_code", .str (pyText "spam")), (pyText "description", .str (pyText "ad")),
    (pyText "source_channel", .str (pyText "marketplace"))]

theorem accommodated_longBody : ∃ (_ : PostgresLimits) (r : AcceptedRequest),
    validateBody (Sample.longBody 65) = .ok r ∧
      postReport (Sample.longBody 65) none ⟨[], [], [], 0, 0⟩ = .handled .dataError ∧
      ¬ Accommodated (Sample.longBody 65) none := by
  let _ := unlimited
  have hnot : ∀ r, validateBody (Sample.longBody 65) = .ok r → ¬ Storable r none := by
    intro r hr h
    cases hr
    exact absurd (h.reporterId.2 (.char 'a') (by decide)) (by decide)
  obtain ⟨r, hr⟩ : ∃ r, validateBody (Sample.longBody 65) = .ok r := ⟨_, rfl⟩
  have hpost : postReport (Sample.longBody 65) none ⟨[], [], [], 0, 0⟩ = .handled .dataError := by
    rw [postReport_of_ok hr, createUpToCommit_empty (hnot r hr)]
  exact ⟨_, r, hr, hpost, fun h => h.noDataError _ hpost⟩

end ReportTriage

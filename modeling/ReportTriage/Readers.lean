import ReportTriage.Causality
import ReportTriage.Payloads

/-!
# Reading back

`GET /reports/{report_id}`, the replay of a `POST /reports` and `GET /queues/{queue_name}/reports`
check again, against closed sets of texts, what five modules write as plain strings. None of them
ever writes another text.

## Main definitions

* `detailResponse`, `createResponse`, `listQueueReports` — the responses, from what is stored.
* `System.ValidRequests` — the requests are those that pass validation.
* `System.Readable`, `System.readable_of_along` — the invariant of the texts.
* `System.every_state_readable` — every response is built.
-/

namespace ReportTriage

/-! ## Responses -/

structure ReportCreateResponse where
  reportId : String
  status : ReportStatus

structure ClassificationPayload where
  category : Literal categories
  priority : Literal priorities
  requiresReview : Bool
  confidence : ℚ
  reasoningSummary : String
  routedQueue : String

structure ReportDetailResponse where
  reportId : String
  status : ReportStatus
  report : ReportPayload
  classification : Option ClassificationPayload
  createdAt : Time
  updatedAt : Time

structure QueueListResponse where
  queueName : String
  items : List QueueItemPayload
  nextCursor : Option String

/-- What an endpoint that reads answers. A `ValidationError` is not caught. -/
inductive Answer (α : Type)
  | ok (body : α)
  | notFound (detail : String)
  | badRequest (detail : String)
  | validationError (first : FieldError) (rest : List FieldError)

def Answer.ofChecked {α : Type} : Checked α → Answer α
  | .ok body => .ok body
  | .errors first rest => .validationError first rest

/-- The columns of a row that come from the request. -/
def Report.request (r : Report) : ReportCreateRequest :=
  ⟨r.reporterId, r.targetType, r.targetId, r.reasonCode, r.description, r.sourceChannel, r.metadata⟩

/-- `_to_payload`. For `metadata or {}`, an empty object is an empty object. -/
def toPayload (report : Report) : Checked ReportPayload :=
  validateReportPayload report.request.fields

/-- `_to_classification` of a row. -/
def toClassification (cls : ReportClassification) : Checked ClassificationPayload :=
  (fun category priority => ⟨category, priority, cls.requiresReview, cls.confidence,
      cls.reasoningSummary, cls.routedQueue⟩)
    <$> checkLiteral categories "category" (.str cls.category)
    <*> checkLiteral priorities "priority" (.str cls.priority)

/-- `_to_classification`, where there may be no row. -/
def toOptionalClassification : Option ReportClassification → Checked (Option ClassificationPayload)
  | none => .ok none
  | some cls => some <$> toClassification cls

/-- The response of `get_report`, whose arguments are built first. -/
def detailResponse (report : Report) (cls : Option ReportClassification) :
    Checked ReportDetailResponse :=
  (toPayload report).andThen fun payload =>
    (toOptionalClassification cls).andThen fun classification =>
      (fun status => ⟨report.id, status, payload, classification, report.createdAt,
        report.updatedAt⟩) <$> checkStatus "status" (.str report.status)

/-- The response of `create_report` to a key it has seen. -/
def createResponse (existing : Report) : Checked ReportCreateResponse :=
  (fun status => ⟨existing.id, status⟩) <$> checkStatus "status" (.str existing.status)

/-- An item of `list_queue_reports`. -/
def itemResponse (row : ReviewQueueItem × Option ReportClassification) : Checked QueueItemPayload :=
  (fun status => { queueItemPayload row.1 row.2 with queueStatus := status.val })
    <$> checkLiteral queueStatuses "queue_status" (.str row.1.queueStatus)

/-- The loop of `list_queue_reports`. -/
def itemResponses : List (ReviewQueueItem × Option ReportClassification) →
    Checked (List QueueItemPayload)
  | [] => .ok []
  | row :: rows => (itemResponse row).andThen fun item =>
      (itemResponses rows).andThen fun items => .ok (item :: items)

namespace System

/-- `GET /reports/{report_id}`. The report is selected in state `s` and its classification, by a
statement of its own, in a later state `t`. -/
def getReportResponse (s t : System) (reportId : String) : Answer ReportDetailResponse :=
  match s.getReport reportId with
  | none => .notFound "report not found"
  | some report => .ofChecked (detailResponse report (t.upserts.classificationOf report.id))

end System

/-- `GET /queues/{queue_name}/reports`. -/
def listQueueReports [UnicodeData] [IsoReader] [Collation] (u : Upserts) (query : ListQuery)
    (cursor : Option String) : Answer QueueListResponse :=
  match listQueueItems u query cursor with
  | .error detail => .badRequest detail
  | .ok (rows, nextCursor) =>
    .ofChecked ((itemResponses rows).andThen fun items => .ok ⟨query.queueName, items, nextCursor⟩)

/-! ### When they are built -/

theorem ReportCreateRequest.Closed.stored {r : ReportCreateRequest} (h : r.Closed) :
    r.stored.Closed :=
  ⟨h.targetType, h.reasonCode, h.sourceChannel⟩

theorem toPayload_of_closed {report : Report} (h : report.request.Closed) :
    ∃ payload, toPayload report = .ok payload ∧ payload.request = report.request :=
  validateReportPayload_of_closed h

theorem toClassification_of_mem {cls : ReportClassification} (hcategory : cls.category ∈ categories)
    (hpriority : cls.priority ∈ priorities) :
    toClassification cls = .ok ⟨⟨_, hcategory⟩, ⟨_, hpriority⟩, cls.requiresReview, cls.confidence,
      cls.reasoningSummary, cls.routedQueue⟩ := by
  simp only [toClassification, checkLiteral_of_mem hcategory, checkLiteral_of_mem hpriority,
    Validated.map_ok, Validated.ok_seq_ok]

theorem itemResponse_of_mem {row : ReviewQueueItem × Option ReportClassification}
    (h : row.1.queueStatus ∈ queueStatuses) :
    itemResponse row = .ok (queueItemPayload row.1 row.2) := by
  rw [itemResponse, checkLiteral_of_mem h, Validated.map_ok]
  rfl

theorem itemResponses_of_mem {rows : List (ReviewQueueItem × Option ReportClassification)}
    (h : ∀ row ∈ rows, row.1.queueStatus ∈ queueStatuses) :
    itemResponses rows = .ok (rows.map fun row => queueItemPayload row.1 row.2) := by
  induction rows with
  | nil => rfl
  | cons row rows ih =>
    obtain ⟨hrow, hrows⟩ := List.forall_mem_cons.mp h
    simp only [itemResponses, itemResponse_of_mem hrow, ih hrows, Validated.andThen_ok,
      List.map_cons]

/-! ### What they show -/

/-- The values of a classification. -/
def ReportClassification.result (c : ReportClassification) : TriageResult :=
  ⟨c.category, c.priority, c.requiresReview, c.confidence, c.reasoningSummary, c.routedQueue⟩

/-- The values of a response's classification. -/
def ClassificationPayload.result (c : ClassificationPayload) : TriageResult :=
  ⟨c.category, c.priority, c.requiresReview, c.confidence, c.reasoningSummary, c.routedQueue⟩

theorem eq_of_checkLiteral {allowed : List String} {loc text : String} {v : Literal allowed}
    (h : checkLiteral allowed loc (.str text) = .ok v) : v.val = text := by
  simp only [checkLiteral] at h
  split at h <;> cases h
  rfl

/-- The classification of a response, if it is built at all, has the values of the row. -/
theorem result_of_toClassification {cls : ReportClassification} {c : ClassificationPayload}
    (h : toClassification cls = .ok c) : c.result = cls.result := by
  obtain ⟨f, priority, hf, hpriority, rfl⟩ := Validated.seq_eq_ok.mp h
  obtain ⟨category, hcategory, rfl⟩ := Validated.map_eq_ok.mp hf
  simp only [ClassificationPayload.result, ReportClassification.result,
    eq_of_checkLiteral hcategory, eq_of_checkLiteral hpriority]

theorem classification_of_detail {report : Report} {cls : Option ReportClassification}
    {body : ReportDetailResponse} (h : detailResponse report cls = .ok body) :
    body.classification.map ClassificationPayload.result =
      cls.map ReportClassification.result := by
  obtain ⟨payload, -, h⟩ := Validated.andThen_eq_ok.mp h
  obtain ⟨classification, hclassification, h⟩ := Validated.andThen_eq_ok.mp h
  obtain ⟨status, -, rfl⟩ := Validated.map_eq_ok.mp h
  cases cls with
  | none =>
    cases hclassification
    rfl
  | some row =>
    obtain ⟨c, hc, rfl⟩ := Validated.map_eq_ok.mp hclassification
    exact congrArg some (result_of_toClassification hc)

namespace System

/-- A response shows the values of the classification it was built from. -/
theorem classification_of_response {t u : System} {r : String} {row : Report}
    {body : ReportDetailResponse}
    (hrow : t.getReport r = some row) (h : t.getReportResponse u r = .ok body) :
    body.classification.map ClassificationPayload.result =
      (u.upserts.classificationOf r).map ReportClassification.result := by
  obtain ⟨-, rfl⟩ := getReport_eq_some hrow
  rw [getReportResponse, hrow] at h
  cases hdetail : detailResponse row (u.upserts.classificationOf row.id) with
  | errors first rest =>
    simp only [hdetail, Answer.ofChecked, reduceCtorEq] at h
  | ok found =>
    simp only [hdetail, Answer.ofChecked, Answer.ok.injEq] at h
    exact h ▸ classification_of_detail hdetail

end System

/-! ## The rules keep to the texts -/

section
variable [UnicodeData]

theorem category_mem (report : LoadedReport) : (triage report).category ∈ categories := by
  have hcases := classifyReport_cases report.reasonCode report.description report.metadata
  rcases hcases with h | h | h | h | ⟨h, -⟩ <;> simp [triage, h, categories]

theorem scorePriority_mem (category description : String) (metadata : Metadata) :
    scorePriority category description metadata ∈ priorities := by
  unfold scorePriority
  dsimp only
  split_ifs <;> simp [priorities]

end

/-! ## The invariant -/

namespace System

/-- Of the requests that arrive, those to create a report have passed validation. -/
def ValidRequests (_ : System) : Action → Prop
  | .arrive (.create payload _) =>
    ∃ body report, validateReportCreateRequest body = .ok report ∧ report.request = payload
  | _ => True

/-- The texts of the requests and of the reports, before any reader sees them. -/
structure Readable (s : System) : Prop where
  requests : ∀ (q : ℕ) (payload : ReportCreateRequest) (key : Option String) (pc : RequestPc),
    s.requests[q]? = some ⟨.create payload key, pc⟩ → payload.Closed
  content : ∀ row ∈ s.reports, row.request.Closed
  status : ∀ row ∈ s.reports, ∃ status : ReportStatus, row.status = status.value

theorem readable_empty : Readable empty := by constructor <;> simp [empty]

theorem request_writeBack (loaded : Report) (status : ReportStatus) (now : Time) (row : Report) :
    (loaded.writeBack status now row).request = row.request := by
  simp only [Report.writeBack]
  split <;> rfl

section
variable [UnicodeData] {s s' : System} {a : Action}

theorem Readable.requests_step (h : Readable s) (hok : s.ValidRequests a) (he : Effect s a s')
    {q : ℕ} {payload : ReportCreateRequest} {key : Option String} {pc : RequestPc}
    (hq : s'.requests[q]? = some ⟨.create payload key, pc⟩) : payload.Closed := by
  rcases he.request hq with hold | ⟨rfl, -, -⟩ | ⟨pc, hold, -⟩
  · exact h.requests q payload key pc hold
  · obtain ⟨body, report, -, rfl⟩ := hok
    exact report.closed_request
  · exact h.requests q payload key pc hold

theorem Readable.content_step (h : Readable s) (hco : Coherent s) (he : Effect s a s')
    {row : Report} (hrow : row ∈ s'.reports) : row.request.Closed := by
  rcases he.reports with ⟨-, hsame⟩ | ⟨-, q, e, new, raises, -, hq, happend⟩ |
    ⟨loaded, status, now, -, hcommit⟩
  · exact h.content row (hsame ▸ hrow)
  · rw [happend, List.mem_append, List.mem_singleton] at hrow
    rcases hrow with hold | rfl
    · exact h.content row hold
    · obtain ⟨payload, reportId, key, now, rfl, rfl⟩ := hco.commit q e row hq
      exact (h.requests q payload key _ hq).stored
  · rw [hcommit, commitStatus, List.mem_map] at hrow
    obtain ⟨old, hold, rfl⟩ := hrow
    rw [request_writeBack]
    exact h.content old hold

theorem Readable.status_step (h : Readable s) (hco : Coherent s) (he : Effect s a s')
    {row : Report} (hrow : row ∈ s'.reports) :
    ∃ status : ReportStatus, row.status = status.value := by
  rcases he.reports with ⟨-, hsame⟩ | ⟨-, q, e, new, raises, -, hq, happend⟩ |
    ⟨loaded, status, now, -, hcommit⟩
  · exact h.status row (hsame ▸ hrow)
  · rw [happend, List.mem_append, List.mem_singleton] at hrow
    rcases hrow with hold | rfl
    · exact h.status row hold
    · obtain ⟨payload, reportId, key, now, -, rfl⟩ := hco.commit q e row hq
      exact ⟨.queued, rfl⟩
  · rw [hcommit, commitStatus, List.mem_map] at hrow
    obtain ⟨old, hold, rfl⟩ := hrow
    rw [Report.status_writeBack]
    split
    · rcases @WriteBack.column_eq_or _ _ loaded.status status.value old.status with
        hkept | ⟨hnew, -⟩
      · rw [hkept]
        exact h.status old hold
      · exact ⟨status, hnew⟩
    · exact h.status old hold

theorem Readable.step (h : Readable s) (hco : Coherent s) (hok : s.ValidRequests a)
    (he : Effect s a s') : Readable s' where
  requests _ _ _ _ hq := h.requests_step hok he hq
  content _ hrow := h.content_step hco he hrow
  status _ hrow := h.status_step hco he hrow

theorem readable_of_along (h : machine.Along ValidRequests s) : Readable s :=
  h.invariant (fun h0 => h0 ▸ readable_empty) fun ht hs hok hstep =>
    hs.step (coherent_of_reachable ht.reachable) hok (effect_of_step hstep)

theorem Causal.category_mem (h : Causal s) {c : ReportClassification}
    (hc : c ∈ s.upserts.classifications.rows) :
    c.category ∈ categories ∧ c.priority ∈ priorities := by
  obtain ⟨report, -, ht⟩ := h.classifications.rows c hc
  have hcategory := ReportTriage.category_mem report
  have hpriority : (triage report).priority ∈ priorities := scorePriority_mem ..
  rw [← ht] at hcategory hpriority
  exact ⟨hcategory, hpriority⟩

theorem Causal.queueStatus_mem (h : Causal s) {item : ReviewQueueItem}
    (hitem : item ∈ s.upserts.queueItems.rows) : item.queueStatus ∈ queueStatuses := by
  rw [(h.queueItems.rows item hitem).2.2.1]
  simp [queueStatuses]

/-- The classification a report is read with, whenever it is. -/
theorem Causal.toOptionalClassification (h : Causal s) (r : String) :
    ∃ classification, toOptionalClassification (s.upserts.classificationOf r) =
      .ok classification := by
  cases hc : s.upserts.classificationOf r with
  | none => exact ⟨none, rfl⟩
  | some c =>
    obtain ⟨hcategory, hpriority⟩ := h.category_mem (Upserts.classificationOf_some hc).1
    rw [ReportTriage.toOptionalClassification, toClassification_of_mem hcategory hpriority]
    exact ⟨_, rfl⟩

theorem Readable.getReportResponse (h : Readable s) {t : System} (ht : Causal t) {r : String}
    {row : Report} (hrow : s.getReport r = some row) :
    ∃ body, s.getReportResponse t r = .ok body ∧ body.reportId = r ∧
      body.status.value = row.status ∧ body.report.request = row.request := by
  obtain ⟨hmem, rfl⟩ := getReport_eq_some hrow
  obtain ⟨payload, hpayload, hrequest⟩ := toPayload_of_closed (h.content row hmem)
  obtain ⟨classification, hclassification⟩ := ht.toOptionalClassification row.id
  obtain ⟨status, hstatus⟩ := h.status row hmem
  refine ⟨⟨row.id, status, payload, classification, row.createdAt, row.updatedAt⟩, ?_, rfl,
    hstatus.symm, hrequest⟩
  rw [System.getReportResponse, hrow]
  dsimp only
  simp only [detailResponse, hpayload, hclassification, hstatus, checkStatus_value,
    Validated.andThen_ok, Validated.map_ok, Answer.ofChecked]

omit [UnicodeData] in
theorem Readable.createResponse (h : Readable s) {row : Report} (hrow : row ∈ s.reports) :
    ∃ status : ReportStatus, createResponse row = .ok ⟨row.id, status⟩ ∧
      status.value = row.status := by
  obtain ⟨status, hstatus⟩ := h.status row hrow
  refine ⟨status, ?_, hstatus.symm⟩
  rw [ReportTriage.createResponse, hstatus, checkStatus_value]
  rfl

/-- **Every reachable state is readable.** Where the requests to create a report are those that
pass validation: `GET /reports/{report_id}` is answered with the report stored and with its
classification, even if that is read in a later state; a replay is answered with the stored
status; a page of a queue is answered with its items, unless its cursor is invalid; and all stored
texts that a response checks are among those allowed. -/
theorem every_state_readable [IsoReader] [Collation] (hs : machine.Along ValidRequests s) :
    (∀ r row t, s.getReport r = some row → machine.Path (fun _ _ => True) s t →
      ∃ body, s.getReportResponse t r = .ok body ∧ body.reportId = r ∧
        body.status.value = row.status ∧ body.report.request = row.request ∧
        body.classification.map ClassificationPayload.result =
          (t.upserts.classificationOf r).map ReportClassification.result) ∧
    (∀ key row, s.findReportByIdempotencyKey key = some row →
      ∃ status, createResponse row = .ok ⟨row.id, status⟩ ∧ status.value = row.status) ∧
    (∀ query cursor,
      (∃ detail, listQueueItems s.upserts query cursor = .error detail ∧
        listQueueReports s.upserts query cursor = .badRequest detail) ∨
      ∃ rows next, listQueueItems s.upserts query cursor = .ok (rows, next) ∧
        listQueueReports s.upserts query cursor = .ok
          ⟨query.queueName, rows.map fun row => queueItemPayload row.1 row.2, next⟩) ∧
    (∀ row ∈ s.reports, row.request.Closed ∧ ∃ status : ReportStatus, row.status = status.value) ∧
    (∀ c ∈ s.upserts.classifications.rows, c.category ∈ categories ∧ c.priority ∈ priorities) ∧
    (∀ item ∈ s.upserts.queueItems.rows, item.queueStatus ∈ queueStatuses) := by
  have h := readable_of_along hs
  have hcausal := causal_of_reachable hs.reachable
  refine ⟨?_, ?_, ?_, fun row hrow => ⟨h.content row hrow, h.status row hrow⟩,
    fun c hc => hcausal.category_mem hc, fun item hitem => hcausal.queueStatus_mem hitem⟩
  · intro r row t hrow ht
    obtain ⟨body, hbody, hid, hstatus, hrequest⟩ :=
      h.getReportResponse (causal_of_reachable (hs.reachable.path ht)) hrow
    exact ⟨body, hbody, hid, hstatus, hrequest, classification_of_response hrow hbody⟩
  · intro key row hrow
    exact h.createResponse (List.mem_of_find?_eq_some hrow)
  · intro query cursor
    cases hrows : listQueueItems s.upserts query cursor with
    | error detail =>
      refine .inl ⟨detail, rfl, ?_⟩
      rw [listQueueReports, hrows]
    | ok page =>
      have hstatuses : ∀ row ∈ page.1, row.1.queueStatus ∈ queueStatuses := fun row hrow =>
        hcausal.queueStatus_mem (mem_of_listQueueItems hcausal.sound hrows row hrow)
      refine .inr ⟨page.1, page.2, rfl, ?_⟩
      rw [listQueueReports, hrows]
      dsimp only
      rw [itemResponses_of_mem hstatuses]
      rfl

end

def isArrival : Action → Bool
  | .arrive _ => true
  | _ => false

/-- After a clean run of a valid report the answer says that it is classified. -/
theorem every_state_readable_cleanRun : ∃ (_ : UnicodeData) (s : System),
    machine.Along ValidRequests s ∧ (s.upserts.classificationOf "r").isSome ∧
      ∃ body, s.getReportResponse s "r" = .ok body ∧ body.status = .classified := by
  let _ := asciiUnicode
  let _ := isoReader
  let _ := codePointOrder
  have hvalid : ∃ report, validateReportCreateRequest (.dict Sample.payload.fields) = .ok report ∧
      report.request = Sample.payload := by
    refine validateFields_of_closed ⟨by decide, by decide, by decide⟩ ?_
    rw [nonEmptyDescription, checkString]
    exact if_neg (by decide)
  have hrun : ((machine.runIf (fun _ a => isArrival a = false)
      (empty.arrive (.create Sample.payload none))
      ((Sample.create 0 "r").tail ++ Sample.cleanRun 0 0)).any fun s =>
        (s.upserts.classificationOf "r").isSome &&
          s.status "r" = some ReportStatus.classified.value) = true := by decide +kernel
  obtain ⟨s, hs, hp⟩ := (Option.any_eq_true _ _).mp hrun
  simp only [Bool.and_eq_true, decide_eq_true_eq] at hp
  have hrest : machine.Path ValidRequests (empty.arrive (.create Sample.payload none)) s :=
    (Machine.Path.of_runIf hs).mono fun _ a ha => by
      cases a <;> trivial
  have harrive : machine.Path ValidRequests empty (empty.arrive (.create Sample.payload none)) :=
    .single (a := .arrive (.create Sample.payload none)) ⟨_, hvalid⟩ rfl
  have halong : machine.Along ValidRequests s := ⟨empty, rfl, harrive.trans hrest⟩
  obtain ⟨row, hrow, hst⟩ := Option.map_eq_some_iff.mp hp.2
  obtain ⟨body, hbody, -, hstatus, -⟩ := (every_state_readable halong).1 "r" row s hrow .refl
  exact ⟨_, s, halong, hp.1, body, hbody, ReportStatus.value_injective (hstatus.trans hst)⟩

end System

end ReportTriage

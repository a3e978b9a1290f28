import ReportTriage.Readers
import ReportTriage.Recovery

/-!
# From a request to what is shown

A client is answered with the id of a report. Which request that report is made from, and what
everyone is shown of it later, is decided by no single table: the row was inserted by one request
and is read by others, and its results are written by runs that load it, some of them long
terminated.

## Main definitions

* `System.inserted_content` — a stored report has what is stored of the request that inserted it.
* `System.posted_is_shown` — from the answer of `POST /reports` to every later reader.
-/

namespace ReportTriage

/-- What `load_report_activity` hands to the rules, of a report made from the request. -/
def ReportCreateRequest.load (payload : ReportCreateRequest) (reportId : String) : LoadedReport :=
  ⟨reportId, payload.reasonCode, payload.description, payload.metadata⟩

/-- The message carries the values of the result. -/
def Payload.Says (result : TriageResult) : Payload → Prop
  | .triaged e => e.category = result.category ∧ e.priority = result.priority ∧
      e.requiresReview = result.requiresReview ∧ e.confidence = result.confidence
  | .queueRouted e => e.queueName = result.routedQueue

theorem Report.SameContent.request {row row' : Report} (h : row.SameContent row') :
    row'.request = row.request := by
  rw [h]
  rfl

theorem Report.load_eq {row : Report} {payload : ReportCreateRequest} (h : row.request = payload) :
    row.load = payload.load row.id := by
  subst h
  rfl

/-! ## The rows of requests -/

/-- The report a request has been answered with. -/
def RequestPc.answer : RequestPc → Option String
  | .done response => response.reportId
  | _ => none

theorem RequestPc.answer_eq_some {pc : RequestPc} {r : String} :
    pc.answer = some r ↔ ∃ response, pc = .done response ∧ response.reportId = some r := by
  cases pc <;> simp [answer]

namespace System
variable [UnicodeData] {s t u : System} {r : String} {q : ℕ}

theorem request_of_path {ok : System → Action → Prop} {e : Endpoint} {pc : RequestPc}
    (hp : machine.Path ok s t) (hq : s.requests[q]? = some ⟨e, pc⟩) :
    ∃ pc', t.requests[q]? = some ⟨e, pc'⟩ := by
  refine hp.invariant (I := fun t => ∃ pc', t.requests[q]? = some ⟨e, pc'⟩) ⟨pc, hq⟩
    fun _ hold _ hs => ?_
  obtain ⟨pc', hq'⟩ := hold
  exact (effect_of_step hs).request_kept hq'

/-! ## The content of a report -/

/-- Whoever has inserted a report has made it from its own request. -/
theorem inserted_content (h : machine.Reachable s) : ∀ (q : ℕ) (r : String),
    .inserted q r ∈ s.history → ∃ payload key pc row,
      s.requests[q]? = some ⟨.create payload key, pc⟩ ∧ row ∈ s.reports ∧ row.id = r ∧
        row.idempotencyKey = key ∧ row.request = payload.stored := by
  refine h.invariant (I := fun s => ∀ (q : ℕ) (r : String), .inserted q r ∈ s.history →
    ∃ payload key pc row, s.requests[q]? = some ⟨.create payload key, pc⟩ ∧ row ∈ s.reports ∧
      row.id = r ∧ row.idempotencyKey = key ∧ row.request = payload.stored)
    (fun h0 => by subst h0; simp [empty]) fun {t a u} ht ih hs q r hev => ?_
  have he := effect_of_step hs
  rcases he.event hev with hold | hnew
  · obtain ⟨payload, key, pc, row, hq, hrow, hid, hkey, hrequest⟩ := ih q r hold
    obtain ⟨pc', hq'⟩ := he.request_kept hq
    obtain ⟨row', hrow', hsame⟩ := he.row_kept hrow
    exact ⟨payload, key, pc', row', hq', hrow', hsame.id.trans hid,
      hsame.idempotencyKey.trans hkey, hsame.request.trans hrequest⟩
  · cases hnew with
    | inserted hq =>
      obtain ⟨payload, reportId, key, now, rfl, rfl⟩ := (coherent_of_reachable ht).commit _ _ _ hq
      obtain ⟨hq', happend, -⟩ := he.of_commitInsert hq
      refine ⟨payload, key, _, _, hq', ?_, rfl, rfl, rfl⟩
      rw [happend]
      exact List.mem_append_right _ (List.mem_singleton_self _)

omit [UnicodeData] in
theorem Intake.getReport_of_mem (h : Intake s) {row : Report} (hrow : row ∈ s.reports) :
    s.getReport row.id = some row := by
  obtain ⟨row', hrow'⟩ := Option.isSome_iff_exists.mp (isSome_getReport.mpr ⟨row, hrow, rfl⟩)
  obtain ⟨hmem, hid⟩ := getReport_eq_some hrow'
  rwa [h.eq_of_collides hmem hrow (.inl hid)] at hrow'

/-- The report that a `POST /reports` is answered with was inserted by a request with the same
key, and by that very request if there is none. -/
theorem inserter_of_answered (h : machine.Reachable s) {payload : ReportCreateRequest}
    {key : Option String} {response : Response}
    (hq : s.requests[q]? = some ⟨.create payload key, .done response⟩)
    (hr : response.reportId = some r) :
    ∃ q₀ payload₀ pc₀ row, s.requests[q₀]? = some ⟨.create payload₀ key, pc₀⟩ ∧
      .inserted q₀ r ∈ s.history ∧ (key = none → q₀ = q) ∧ s.getReport r = some row ∧
        row.request = payload₀.stored := by
  have hintake := intake_of_reachable h
  obtain ⟨⟨row, hrow, rfl, hkey⟩, hown⟩ := hintake.answered q payload key response r hq hr
  obtain ⟨q₀, hev⟩ := hintake.rooted row hrow
  obtain ⟨payload₀, key₀, pc₀, row₀, hq₀, hrow₀, hid, hkey₀, hrequest⟩ :=
    inserted_content h q₀ row.id hev
  obtain rfl := hintake.eq_of_collides hrow₀ hrow (.inl hid)
  obtain rfl : key₀ = key := hkey₀.symm.trans hkey
  exact ⟨q₀, payload₀, pc₀, row₀, hq₀, hev,
    fun hnone => hintake.inserter q₀ q row₀.id hev (hown hnone), hintake.getReport_of_mem hrow₀,
    hrequest⟩

/-! ## From the answer to the readers -/

/-- The result of a report is that of the rules on the request it was made from. -/
theorem ResultOf.eq_load {row : Report} {payload : ReportCreateRequest} {result : TriageResult}
    (h : u.ResultOf r result) (hrow : u.getReport r = some row) (hrequest : row.request = payload) :
    result = triage (payload.load r) := by
  obtain ⟨report, hloaded, rfl⟩ := h
  obtain rfl := hloaded.unique ⟨row, hrow, rfl⟩
  rw [Report.load_eq hrequest, (getReport_eq_some hrow).2]

/-- A message about a report says what the rules make of it. -/
theorem says_of_justified {m : Message} {row : Report} {payload : ReportCreateRequest}
    (hm : m.Justified t) (hr : m.payload.reportId = r) (hrow : t.getReport r = some row)
    (hrequest : row.request = payload) : m.payload.Says (triage (payload.load r)) := by
  obtain ⟨-, -, -, hpayload⟩ := hm
  cases hp : m.payload with
  | triaged e =>
    rw [hp] at hpayload hr
    obtain ⟨-, summary, queueName, hresult⟩ := hpayload
    rw [show e.reportId = r from hr] at hresult
    rw [← hresult.eq_load hrow hrequest]
    exact ⟨rfl, rfl, rfl, rfl⟩
  | queueRouted e =>
    rw [hp] at hpayload hr
    obtain ⟨-, -, result, hresult, hqueue⟩ := hpayload
    rw [show e.reportId = r from hr] at hresult
    rw [← hresult.eq_load hrow hrequest]
    exact hqueue.symm

/-- **What is posted is what is shown.** A `POST /reports` is answered with the id of a report
that one request has inserted: this one, unless it has a key, and then one with this key. From
then on, for good: `GET /reports/{report_id}` is answered with what is stored of that request; the
classification it shows, the queue item and the messages of the report carry the result of the
rules on that; and a response that says it is classified shows a classification. -/
theorem posted_is_shown (h : machine.Along ValidRequests s) {payload : ReportCreateRequest}
    {key : Option String} {response : Response}
    (hq : s.requests[q]? = some ⟨.create payload key, .done response⟩)
    (hr : response.reportId = some r) :
    ∃ q₀ payload₀ pc₀, s.requests[q₀]? = some ⟨.create payload₀ key, pc₀⟩ ∧
      .inserted q₀ r ∈ s.history ∧ (key = none → q₀ = q) ∧
      ∀ t, machine.Path ValidRequests s t →
        (∀ u, machine.Path (fun _ _ => True) t u →
          ∃ body, t.getReportResponse u r = .ok body ∧ body.reportId = r ∧
            body.report.request = payload₀.stored ∧
            (∀ c ∈ body.classification, c.result = triage (payload₀.stored.load r)) ∧
            (body.status = .classified → body.classification.isSome)) ∧
        (∀ item ∈ t.upserts.queueItems.rows, item.reportId = r →
          item.queueName = (triage (payload₀.stored.load r)).routedQueue) ∧
        ∀ m ∈ t.stream, m.payload.reportId = r →
          m.payload.Says (triage (payload₀.stored.load r)) := by
  obtain ⟨q₀, payload₀, pc₀, row, hq₀, hev, hown, hrow, hrequest⟩ :=
    inserter_of_answered h.reachable hq hr
  refine ⟨q₀, payload₀, pc₀, hq₀, hev, hown, fun t ht => ?_⟩
  have hreach : machine.Reachable t := h.reachable.path (ht.mono fun _ _ _ => trivial)
  have hcausal := causal_of_reachable hreach
  obtain ⟨row', hrow', hsame⟩ := getReport_of_path ht hrow
  have hrequest' : row'.request = payload₀.stored := hsame.request.trans hrequest
  refine ⟨fun u hu => ?_, fun item hitem hid => ?_, fun m hm hid => ?_⟩
  · have hcausal' := causal_of_reachable (hreach.path hu)
    obtain ⟨row'', hrow'', hsame'⟩ := getReport_of_path hu hrow'
    obtain ⟨body, hbody, hid, hstatus, hreport⟩ :=
      (readable_of_along (h.path ht)).getReportResponse hcausal' hrow'
    have hshown := classification_of_response hrow' hbody
    refine ⟨body, hbody, hid, hreport.trans hrequest', fun c hc => ?_, fun hclassified => ?_⟩
    · rw [hc, Option.map_some] at hshown
      obtain ⟨cls, hcls, hresult⟩ := Option.map_eq_some_iff.mp hshown.symm
      obtain ⟨hmem, hkey⟩ := Upserts.classificationOf_some hcls
      have hgood := hcausal'.classifications.rows cls hmem
      rw [GoodClassification, hkey] at hgood
      rw [← hresult]
      exact hgood.eq_load hrow'' (hsame'.request.trans hrequest')
    · have hrows := hcausal.classified r (by
        rw [status, hrow', Option.map_some, ← hstatus, hclassified])
      have hkept := (hrows.1.path hcausal.sound (upserts_path hu)).classificationOf
      rw [← Option.isSome_map, hshown, Option.isSome_map]
      exact hkept
  · obtain ⟨⟨result, hresult, hqueue⟩, -⟩ := hcausal.queueItems.rows item hitem
    rw [hid] at hresult
    rw [← hqueue, hresult.eq_load hrow' hrequest']
  · exact says_of_justified (hcausal.messages m hm) hid hrow' hrequest'

/-- The metadata, joined in the order they are posted in, have a keyword that they do not have in
the order they are stored in. -/
def reordered : ReportCreateRequest :=
  { Sample.payload with
    reasonCode := "other", description := "신고", metadata := [("bb", .str "외부"), ("a", .str "메신저")] }

omit [UnicodeData] in
/-- A valid report that is posted without a key and then triaged is shown as stored, and its
category is not that of the rules on the request as posted. -/
theorem posted_is_shown_reordered : ∃ (_ : UnicodeData) (s : System),
    machine.Along ValidRequests s ∧ ∃ body, s.getReportResponse s "r" = .ok body ∧
      body.report.request = reordered.stored ∧ ∃ c ∈ body.classification,
        c.result = triage (reordered.stored.load "r") ∧
        c.result.category ≠ (triage (reordered.load "r")).category := by
  let _ := asciiUnicode
  have hvalid : ∃ report, validateReportCreateRequest (.dict reordered.fields) = .ok report ∧
      report.request = reordered := by
    refine validateFields_of_closed ⟨by decide, by decide, by decide⟩ ?_
    rw [nonEmptyDescription, checkString]
    exact if_neg (by decide)
  have hrun : ((machine.runIf (fun _ a => isArrival a = false)
      (empty.arrive (.create reordered none))
      ((Sample.create 0 "r").tail ++ Sample.cleanRun 0 0)).any fun s =>
        s.status "r" = some ReportStatus.classified.value && (s.requests[0]?).any fun x =>
          x.pc.answer = some "r") = true := by decide +kernel
  obtain ⟨s, hs, hp⟩ := (Option.any_eq_true _ _).mp hrun
  simp only [Bool.and_eq_true, decide_eq_true_eq, Option.any_eq_true] at hp
  obtain ⟨hst, x, hx, hr⟩ := hp
  have hrest : machine.Path ValidRequests (empty.arrive (.create reordered none)) s :=
    (Machine.Path.of_runIf hs).mono fun _ a ha => by
      cases a <;> trivial
  have harrive : machine.Path ValidRequests empty (empty.arrive (.create reordered none)) :=
    .single (a := .arrive (.create reordered none)) ⟨_, hvalid⟩ rfl
  have halong : machine.Along ValidRequests s := ⟨empty, rfl, harrive.trans hrest⟩
  obtain ⟨pc, hq⟩ := request_of_path hrest (q := 0) rfl
  rw [hq] at hx
  cases hx
  obtain ⟨response, rfl, hresponse⟩ := RequestPc.answer_eq_some.mp hr
  obtain ⟨q₀, payload₀, pc₀, hq₀, -, hown, hall⟩ := posted_is_shown halong hq hresponse
  obtain rfl := hown rfl
  rw [hq] at hq₀
  cases hq₀
  obtain ⟨body, hbody, -, hrequest, hresult, hshown⟩ := (hall s .refl).1 s .refl
  obtain ⟨row, hrow, hstatus⟩ := Option.map_eq_some_iff.mp hst
  obtain ⟨found, hfound, -, hfoundStatus, -⟩ := (readable_of_along halong).getReportResponse
    (causal_of_reachable halong.reachable) hrow
  rw [hbody] at hfound
  cases hfound
  obtain ⟨c, hc⟩ := Option.isSome_iff_exists.mp
    (hshown (ReportStatus.value_injective (hfoundStatus.trans hstatus)))
  refine ⟨_, s, halong, body, hbody, hrequest, c, hc, hresult c hc, ?_⟩
  rw [hresult c hc]
  decide +kernel

end System

end ReportTriage

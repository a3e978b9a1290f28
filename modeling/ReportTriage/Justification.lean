import ReportTriage.Coherence

/-!
# What a run knows

A run carries values from one activity to the next. `Justified` says of each await point what
those values are, in terms of the stored report, and which rows are there by then; of each
activity, what its arguments owe to the stores; of each message, the same. These are facts that
no step takes back, because reports keep their content and rows are never removed.

## Main definitions

* `System.ResultOf` — the result of the rules on the stored report.
* `WorkflowPc.Justified`, `Activity.Justified`, `Activity.Returns`, `Message.Justified`.
* `System.Extends`, `System.Effect.extends` — a later state knows as much.
* `WorkflowPc.justified_resume` — the value of a justified activity justifies what follows.
-/

namespace ReportTriage

/-- The part of the result that `classify_report` returns. -/
def TriageResult.classification (t : TriageResult) : ClassificationResult :=
  ⟨t.category, t.confidence, t.reasoningSummary⟩

/-- The report a message is about. -/
def Payload.reportId : Payload → String
  | triaged event => event.reportId
  | queueRouted event => event.reportId

namespace System

/-- The stored report, as `load_report_activity` returns it. -/
def Loaded (s : System) (r : String) (report : LoadedReport) : Prop :=
  ∃ row, s.getReport r = some row ∧ row.load = report

theorem Loaded.unique {s : System} {r : String} {report report' : LoadedReport}
    (h : s.Loaded r report) (h' : s.Loaded r report') : report = report' := by
  obtain ⟨row, hrow, rfl⟩ := h
  obtain ⟨row', hrow', rfl⟩ := h'
  rw [hrow] at hrow'
  cases hrow'
  rfl

variable [UnicodeData]

/-- The result of the rules on the stored report. -/
def ResultOf (s : System) (r : String) (t : TriageResult) : Prop :=
  ∃ report, s.Loaded r report ∧ t = triage report

theorem ResultOf.unique {s : System} {r : String} {t t' : TriageResult} (h : s.ResultOf r t)
    (h' : s.ResultOf r t') : t = t' := by
  obtain ⟨report, hl, rfl⟩ := h
  obtain ⟨report', hl', rfl⟩ := h'
  rw [hl.unique hl']

end System

section
variable [UnicodeData] (s : System)

/-- What the local variables of a run on report `r` are, and which rows are there. -/
def WorkflowPc.Justified (r : String) : WorkflowPc → Prop
  | load | markFailed _ | raised _ | markFailedRaised _ => True
  | markProcessing report | classify report => s.Loaded r report
  | scorePriority report c => s.Loaded r report ∧
      c = classifyReport report.reasonCode report.description report.metadata
  | decideReview c priorityLevel =>
    ∃ t, s.ResultOf r t ∧ t.classification = c ∧ t.priority = priorityLevel
  | persist c priorityLevel requiresReview =>
    ∃ t, s.ResultOf r t ∧ t.classification = c ∧ t.priority = priorityLevel ∧
      t.requiresReview = requiresReview
  | route c priorityLevel requiresReview queueName =>
    (∃ t, s.ResultOf r t ∧ t.classification = c ∧ t.priority = priorityLevel ∧
      t.requiresReview = requiresReview ∧ t.routedQueue = queueName) ∧ s.upserts.Classified r
  | publish c priorityLevel requiresReview queueName
  | markClassified c priorityLevel requiresReview queueName =>
    (∃ t, s.ResultOf r t ∧ t.classification = c ∧ t.priority = priorityLevel ∧
      t.requiresReview = requiresReview ∧ t.routedQueue = queueName) ∧
      s.upserts.Classified r ∧ s.upserts.Routed r
  | returned result =>
    (∃ t, s.ResultOf r t ∧
      result = ⟨r, t.category, t.priority, t.requiresReview, t.routedQueue⟩) ∧
      s.upserts.Classified r ∧ s.upserts.Routed r

/-- What the arguments of an activity owe to the stores. -/
def Activity.Justified : Activity → Prop
  | persistClassification r category priorityLevel requiresReview confidence summary =>
    s.ResultOf r ⟨category, priorityLevel, requiresReview, confidence, summary,
      routeToQueue category⟩
  | routeQueue r queueName =>
    (∃ t, s.ResultOf r t ∧ t.routedQueue = queueName) ∧ s.upserts.Classified r
  | publishTriageEvents r category priorityLevel requiresReview confidence queueName =>
    (∃ summary, s.ResultOf r ⟨category, priorityLevel, requiresReview, confidence, summary,
      queueName⟩) ∧ s.upserts.Classified r ∧ s.upserts.Routed r
  | markReportClassified r => s.upserts.Classified r ∧ s.upserts.Routed r
  | _ => True

/-- The values an activity may return, and the row it leaves. -/
def Activity.Returns : Activity → Value → Prop
  | loadReport r, .report report => s.Loaded r report
  | classifyReport report, .classification c =>
    c = ReportTriage.classifyReport report.reasonCode report.description report.metadata
  | scorePriority report category, .text priorityLevel =>
    priorityLevel = ReportTriage.scorePriority category report.description report.metadata
  | decideReview category priorityLevel confidence, .flag requiresReview =>
    requiresReview = decideRequiresReview category priorityLevel confidence
  | persistClassification r category _ _ _ _, .text queueName =>
    queueName = routeToQueue category ∧ s.upserts.Classified r
  | routeQueue r _, .null => s.upserts.Routed r
  | publishTriageEvents _ _ _ _ _ _, .null => True
  | markReportProcessing _, .null | markReportClassified _, .null | markReportFailed _, .null =>
    True
  | _, _ => False

/-- What a message says, and which rows are there. -/
def Message.Justified (m : Message) : Prop :=
  m.msgId = System.msgId m.subject m.payload.reportId ∧
    s.upserts.Classified m.payload.reportId ∧ s.upserts.Routed m.payload.reportId ∧
    match m.payload with
    | .triaged e => m.subject = subjectReportTriaged ∧ ∃ summary queueName, s.ResultOf e.reportId
        ⟨e.category, e.priority, e.requiresReview, e.confidence, summary, queueName⟩
    | .queueRouted e => m.subject = subjectQueueRouted ∧ e.queueStatus = "pending" ∧
        ∃ t, s.ResultOf e.reportId t ∧ t.routedQueue = e.queueName

variable {s}

/-! ## From one await to the next -/

/-- The activity a justified run awaits is justified. -/
theorem WorkflowPc.justified_call {r : String} {pc : WorkflowPc} {call : ActivityCall}
    (h : pc.Justified s r) (hcall : pc.call r = some call) : call.activity.Justified s := by
  cases pc with
  | persist c priorityLevel requiresReview =>
    cases hcall
    obtain ⟨t, ⟨report, hl, rfl⟩, rfl, rfl, rfl⟩ := h
    exact ⟨report, hl, rfl⟩
  | route c priorityLevel requiresReview queueName =>
    cases hcall
    obtain ⟨⟨t, ht, -, -, -, hq⟩, hc⟩ := h
    exact ⟨⟨t, ht, hq⟩, hc⟩
  | publish c priorityLevel requiresReview queueName =>
    cases hcall
    obtain ⟨⟨t, ht, rfl, rfl, rfl, rfl⟩, hrows⟩ := h
    exact ⟨⟨t.reasoningSummary, ht⟩, hrows⟩
  | markClassified c priorityLevel requiresReview queueName =>
    cases hcall
    exact h.2
  | load | markProcessing | classify | scorePriority | decideReview | markFailed =>
    cases hcall
    trivial
  | returned | raised | markFailedRaised => cases hcall

/-- **The value of the awaited activity justifies what follows**, and something follows. -/
theorem WorkflowPc.justified_resume {r : String} {pc : WorkflowPc} {call : ActivityCall} {v : Value}
    (h : pc.Justified s r) (hcall : pc.call r = some call) (hv : call.activity.Returns s v) :
    ∃ pc', pc.resume r v = some pc' ∧ pc'.Justified s r := by
  cases pc with
  | load =>
    cases hcall
    cases v <;> first | exact ⟨_, rfl, hv⟩ | cases hv
  | markProcessing report =>
    cases hcall
    cases v <;> first | exact ⟨_, rfl, h⟩ | cases hv
  | classify report =>
    cases hcall
    cases v <;> first | exact ⟨_, rfl, h, hv⟩ | cases hv
  | scorePriority report c =>
    cases hcall
    obtain ⟨hl, rfl⟩ := h
    cases v with
    | text priorityLevel => exact ⟨_, rfl, triage report, ⟨report, hl, rfl⟩, rfl, hv.symm⟩
    | _ => cases hv
  | decideReview c priorityLevel =>
    cases hcall
    obtain ⟨t, ⟨report, hl, rfl⟩, rfl, rfl⟩ := h
    cases v with
    | flag requiresReview =>
      exact ⟨_, rfl, triage report, ⟨report, hl, rfl⟩, rfl, rfl, hv.symm⟩
    | _ => cases hv
  | persist c priorityLevel requiresReview =>
    cases hcall
    obtain ⟨t, ⟨report, hl, rfl⟩, rfl, rfl, rfl⟩ := h
    cases v with
    | text queueName =>
      exact ⟨_, rfl, ⟨triage report, ⟨report, hl, rfl⟩, rfl, rfl, rfl, hv.1.symm⟩, hv.2⟩
    | _ => cases hv
  | route c priorityLevel requiresReview queueName =>
    cases hcall
    cases v <;> first | exact ⟨_, rfl, h.1, h.2, hv⟩ | cases hv
  | publish c priorityLevel requiresReview queueName =>
    cases hcall
    cases v <;> first | exact ⟨_, rfl, h⟩ | cases hv
  | markClassified c priorityLevel requiresReview queueName =>
    cases hcall
    obtain ⟨⟨t, ht, rfl, rfl, rfl, rfl⟩, hrows⟩ := h
    cases v <;> first | exact ⟨_, rfl, ⟨t, ht, rfl⟩, hrows⟩ | cases hv
  | markFailed err =>
    cases hcall
    cases v <;> first | exact ⟨_, rfl, trivial⟩ | cases hv
  | returned | raised | markFailedRaised => cases hcall

theorem WorkflowPc.justified_raise {r : String} {pc : WorkflowPc} {e : Failure}
    (h : pc.Justified s r) : (pc.raise e).Justified s r := by
  cases pc <;> trivial

theorem Run.justified_attemptFailed {run : Run} {e : Failure}
    (h : run.pc.Justified s run.reportId) :
    (run.attemptFailed e).pc.Justified s (run.attemptFailed e).reportId := by
  unfold attemptFailed
  split
  · exact h
  · split
    · exact h
    · exact WorkflowPc.justified_raise h

/-- What an activity returns after its upsert has committed. -/
theorem Activity.returns_of_holds {activity : Activity} {call : UpsertCall} {v : Value}
    (hc : activity.upsertCall = some (call, v)) (h : s.upserts.Holds call) :
    activity.Returns s v := by
  cases activity with
  | persistClassification =>
    cases hc
    exact ⟨rfl, h⟩
  | routeQueue =>
    cases hc
    exact h
  | _ => cases hc

/-! ## Later states know as much -/

namespace System

/-- Reports keep their content, and rows stay. -/
structure Extends (s s' : System) : Prop where
  loaded : ∀ r report, s.Loaded r report → s'.Loaded r report
  classified : ∀ r, s.upserts.Classified r → s'.upserts.Classified r
  routed : ∀ r, s.upserts.Routed r → s'.upserts.Routed r

variable {s s' : System} {a : Action}

theorem Extends.resultOf (h : Extends s s') {r : String} {t : TriageResult}
    (ht : s.ResultOf r t) : s'.ResultOf r t := by
  obtain ⟨report, hl, rfl⟩ := ht
  exact ⟨report, h.loaded r report hl, rfl⟩

theorem Extends.pc (h : Extends s s') {r : String} {pc : WorkflowPc} (hpc : pc.Justified s r) :
    pc.Justified s' r := by
  cases pc with
  | load | markFailed | raised | markFailedRaised => trivial
  | markProcessing | classify => exact h.loaded r _ hpc
  | scorePriority => exact hpc.imp_left (h.loaded r _)
  | decideReview | persist =>
    obtain ⟨t, ht, hrest⟩ := hpc
    exact ⟨t, h.resultOf ht, hrest⟩
  | route =>
    obtain ⟨⟨t, ht, hrest⟩, hc⟩ := hpc
    exact ⟨⟨t, h.resultOf ht, hrest⟩, h.classified r hc⟩
  | publish | markClassified | returned =>
    obtain ⟨⟨t, ht, hrest⟩, hc, hq⟩ := hpc
    exact ⟨⟨t, h.resultOf ht, hrest⟩, h.classified r hc, h.routed r hq⟩

theorem Extends.activity (h : Extends s s') {activity : Activity}
    (hactivity : activity.Justified s) : activity.Justified s' := by
  cases activity with
  | persistClassification => exact h.resultOf hactivity
  | routeQueue =>
    obtain ⟨⟨t, ht, hq⟩, hc⟩ := hactivity
    exact ⟨⟨t, h.resultOf ht, hq⟩, h.classified _ hc⟩
  | publishTriageEvents =>
    obtain ⟨⟨summary, ht⟩, hc, hq⟩ := hactivity
    exact ⟨⟨summary, h.resultOf ht⟩, h.classified _ hc, h.routed _ hq⟩
  | markReportClassified => exact ⟨h.classified _ hactivity.1, h.routed _ hactivity.2⟩
  | loadReport | markReportProcessing | classifyReport | scorePriority | decideReview
  | markReportFailed => trivial

theorem Extends.returns (h : Extends s s') {activity : Activity} {v : Value}
    (hv : activity.Returns s v) : activity.Returns s' v := by
  cases activity <;> cases v <;> first
    | exact hv
    | exact h.loaded _ _ hv
    | exact hv.imp_right (h.classified _)
    | exact h.routed _ hv

theorem Extends.message (h : Extends s s') {m : Message} (hm : m.Justified s) :
    m.Justified s' := by
  obtain ⟨hid, hc, hq, hm⟩ := hm
  refine ⟨hid, h.classified _ hc, h.routed _ hq, ?_⟩
  split
  · rename_i e hp
    rw [hp] at hm
    obtain ⟨hsubject, summary, queueName, ht⟩ := hm
    exact ⟨hsubject, summary, queueName, h.resultOf ht⟩
  · rename_i e hp
    rw [hp] at hm
    obtain ⟨hsubject, hstatus, t, ht, hqueue⟩ := hm
    exact ⟨hsubject, hstatus, t, h.resultOf ht, hqueue⟩

omit [UnicodeData] in
theorem stream_mono_store (s : System) (m : Message) : s.stream <+: s.store m := by
  unfold store
  split
  · exact List.prefix_rfl
  · exact List.prefix_append ..

/-- The tables of the upserts, seen through a step: at most one statement of one upsert. -/
theorem Effect.upserts (he : Effect s a s') :
    s'.upserts = s.upserts ∨ ∃ b, s.upserts.step b = some s'.upserts := by
  cases he with
  | upserted ha hx hc hu hm => exact .inr ⟨_, hu⟩
  | arrived | requestMoved | inserted | reset | started | startFailed | scheduled | runMoved
  | attemptMoved | marked | published => exact .inl rfl

theorem Effect.upserts_path (he : Effect s a s') :
    Upserts.machine.Path (fun _ _ => True) s.upserts s'.upserts := by
  rcases he.upserts with hsame | ⟨b, hb⟩
  · rw [hsame]; exact .refl
  · exact .single trivial hb

theorem Effect.stream_mono (he : Effect s a s') : s.stream <+: s'.stream := by
  cases he with
  | published => exact stream_mono_store ..
  | arrived | requestMoved | inserted | reset | started | startFailed | scheduled | runMoved
  | attemptMoved | marked | upserted => exact List.prefix_rfl

theorem Effect.extends (he : Effect s a s') (hs : s.upserts.Sound) : Extends s s' where
  loaded r report h := by
    obtain ⟨row, hrow, rfl⟩ := h
    obtain ⟨row', hrow', hsame⟩ := he.getReport_some hrow
    exact ⟨row', hrow', hsame.load⟩
  classified r h := h.path hs he.upserts_path
  routed r h := h.path hs he.upserts_path

end System

end

end ReportTriage

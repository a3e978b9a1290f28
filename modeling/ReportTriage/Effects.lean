import ReportTriage.Lib.Slots
import ReportTriage.System

/-!
# What a step can do

`Effect s a s'` lists what action `a` can do in state `s`, with everything the code or a
server checked before. It is the only account of `System.step` the proofs about runs use. The
moves that touch one party and nothing else are grouped by the kind of party.

## Main definitions

* `Effect`, `effect_of_step` — the list, and that it is complete.
* `Effect.request`, `Effect.run`, `Effect.attempt` — the same, seen by one party.
* `Effect.reports` — the only three ways `reports` changes.
-/

namespace ReportTriage

namespace System
variable [UnicodeData]

/-- What a request does by itself: it reads, or it gives up. -/
inductive RequestMove (s : System) (q : ℕ) : Action → Endpoint → RequestPc → RequestPc → Prop
  | found {payload : ReportCreateRequest} {key : String} {existing : Report}
      (hfind : s.findReportByIdempotencyKey key = some existing) :
      RequestMove s q (.lookup q) (.create payload (some key)) .lookup
        (.done (.created existing.id existing.status))
  | missed {payload : ReportCreateRequest} {key : String} :
      RequestMove s q (.lookup q) (.create payload (some key)) .lookup .insert
  | inserted {payload : ReportCreateRequest} {key : Option String} (reportId : String) (now : Time)
      (hfree : ∀ r ∈ s.reports, ¬ r.Collides (createReport payload.stored reportId key now))
      (hwait : ∀ r ∈ s.requests, ¬ r.pc.Blocks (createReport payload.stored reportId key now)) :
      RequestMove s q (.insert q reportId now) (.create payload key) .insert
        (.commit (createReport payload.stored reportId key now))
  | conflict {payload : ReportCreateRequest} {key : String} (reportId : String) (now : Time) :
      RequestMove s q (.insert q reportId now) (.create payload (some key)) .insert .relookup
  | raised {payload : ReportCreateRequest} (reportId : String) (now : Time) :
      RequestMove s q (.insert q reportId now) (.create payload none) .insert (.done .serverError)
  | refound {payload : ReportCreateRequest} {key : String} {existing : Report}
      (hfind : s.findReportByIdempotencyKey key = some existing) :
      RequestMove s q (.relookup q) (.create payload (some key)) .relookup
        (.done (.created existing.id existing.status))
  | remissed {payload : ReportCreateRequest} {key : String} :
      RequestMove s q (.relookup q) (.create payload (some key)) .relookup (.done .serverError)
  | loaded {reportId : String} {report : Report} (hget : s.getReport reportId = some report) :
      RequestMove s q (.loadForReprocess q) (.reprocess reportId) .getReport (.reset report)
  | notFound {reportId : String} :
      RequestMove s q (.loadForReprocess q) (.reprocess reportId) .getReport
        (.done (.notFound "report not found"))
  | reloaded {e : Endpoint} {reportId cause : String} {report : Report}
      (hget : s.getReport reportId = some report) :
      RequestMove s q (.loadStartFailed q) e (.loadStartFailed reportId cause)
        (.markStartFailed report cause)
  | missing {e : Endpoint} {reportId cause : String} (hget : s.getReport reportId = none) :
      RequestMove s q (.loadStartFailed q) e (.loadStartFailed reportId cause)
        (.done (e.startFailed reportId cause))
  | dropped {e : Endpoint} {pc : RequestPc} {reportId cause : String}
      (hpc : pc.failedStart = some (reportId, cause)) :
      RequestMove s q (.dropStartFailed q) e pc (.done (e.startFailed reportId cause))
  | failed {e : Endpoint} {pc : RequestPc} (hpc : pc.isBeforeStart = true) :
      RequestMove s q (.fail q) e pc (.done .serverError)
  | stopped {e : Endpoint} {pc : RequestPc} (hpc : pc.isEnded = false) :
      RequestMove s q (.stop q) e pc .stopped

/-- What Temporal makes of the attempt a run waits for. -/
inductive RunMove (s : System) (ρ : ℕ) (run : Run) : Action → Run → Prop
  | succeeded {a : ℕ} {x : Attempt} {v : Value} {run' : Run} (hout : run.outstanding = some a)
      (hx : s.attempts[a]? = some x) (hp : x.phase = .finished (.ok v))
      (hrun : run.succeeded v = some run') : RunMove s ρ run (.complete ρ) run'
  | failed {a : ℕ} {x : Attempt} {e : Failure} (hout : run.outstanding = some a)
      (hx : s.attempts[a]? = some x) (hp : x.phase = .finished (.error e)) :
      RunMove s ρ run (.complete ρ) (run.attemptFailed e)
  | timedOut {a : ℕ} (hout : run.outstanding = some a) :
      RunMove s ρ run (.timeout ρ) (run.attemptFailed .timeout)

/-- What an attempt does by itself: it reads, computes or fails. -/
inductive AttemptMove (s : System) (i : ℕ) : Action → Activity → AttemptPhase → AttemptPhase → Prop
  | loaded {reportId : String} {report : Report} (input : Input)
      (hget : s.getReport reportId = some report) :
      AttemptMove s i (.exec i input) (.loadReport reportId) .running
        (.finished (.ok (.report report.load)))
  | selected {activity : Activity} {reportId : String} {status : ReportStatus} {report : Report}
      (input : Input) (hw : activity.statusWrite = some (reportId, status))
      (hget : s.getReport reportId = some report) :
      AttemptMove s i (.exec i input) activity .running (.loaded report)
  | classified {report : LoadedReport} (input : Input) :
      AttemptMove s i (.exec i input) (.classifyReport report) .running
        (.finished (.ok (.classification
          (classifyReport report.reasonCode report.description report.metadata))))
  | scored {report : LoadedReport} {category : String} (input : Input) :
      AttemptMove s i (.exec i input) (.scorePriority report category) .running
        (.finished (.ok (.text (scorePriority category report.description report.metadata))))
  | decided {category priorityLevel : String} {confidence : ℚ} (input : Input) :
      AttemptMove s i (.exec i input) (.decideReview category priorityLevel confidence) .running
        (.finished (.ok (.flag (decideRequiresReview category priorityLevel confidence))))
  | raised {activity : Activity} {p : AttemptPhase} (input : Input) (e : Failure)
      (hp : p = .running ∨ ∃ now, p = .triagedPublished now) :
      AttemptMove s i (.exec i input) activity p (.finished (.error e))
  | failed {activity : Activity} {p : AttemptPhase} (e : Failure) (hp : ∀ r, p ≠ .finished r) :
      AttemptMove s i (.failAttempt i e) activity p (.finished (.error e))

/-- A statement of an upsert, from tables `u` to tables `u'`. -/
inductive UpsertMove (u u' : Upserts) (call : UpsertCall) (v : Value) :
    Upserts.Action → AttemptPhase → AttemptPhase → Prop
  | began : UpsertMove u u' call v call.begin .running (.upserting (u.nextTxn call))
  | advanced {t : ℕ} (newId : String) (now : Time) (hopen : u'.ended t call = none) :
      UpsertMove u u' call v (call.advance t newId now) (.upserting t) (.upserting t)
  | returned {t : ℕ} (newId : String) (now : Time) (hcommitted : u'.ended t call = some none) :
      UpsertMove u u' call v (call.advance t newId now) (.upserting t) (.finished (.ok v))
  | raised {t : ℕ} (newId : String) (now : Time) (e : Failure) :
      UpsertMove u u' call v (call.advance t newId now) (.upserting t) (.finished (.error e))
  | failed {t : ℕ} (e : Failure) :
      UpsertMove u u' call v (call.fail t) (.upserting t) (.finished (.error e))

/-- The message an attempt publishes, and how it goes on once that is acknowledged. -/
inductive PublishMove : Activity → AttemptPhase → Message → AttemptPhase → Prop
  | triaged {reportId category priorityLevel queueName : String} {requiresReview : Bool}
      {confidence : ℚ} (now : Time) (storedAt : ServerTime) :
      PublishMove
        (.publishTriageEvents reportId category priorityLevel requiresReview confidence queueName)
        .running
        ⟨subjectReportTriaged, msgId subjectReportTriaged reportId,
          .triaged ⟨reportId, category, priorityLevel, requiresReview, confidence, now⟩, storedAt⟩
        (.triagedPublished now)
  | queueRouted {reportId category priorityLevel queueName : String} {requiresReview : Bool}
      {confidence : ℚ} {now : Time} (storedAt : ServerTime) :
      PublishMove
        (.publishTriageEvents reportId category priorityLevel requiresReview confidence queueName)
        (.triagedPublished now)
        ⟨subjectQueueRouted, msgId subjectQueueRouted reportId,
          .queueRouted ⟨reportId, queueName, "pending", now⟩, storedAt⟩
        (.finished (.ok .null))

/-- **Everything a step can do.** -/
inductive Effect (s : System) : Action → System → Prop
  | arrived (endpoint : Endpoint) : Effect s (.arrive endpoint) (s.arrive endpoint)
  | requestMoved {a : Action} {q : ℕ} {e : Endpoint} {pc pc' : RequestPc}
      (hq : s.requests[q]? = some ⟨e, pc⟩) (hm : RequestMove s q a e pc pc') :
      Effect s a (s.setPc q pc')
  | inserted {q : ℕ} {e : Endpoint} {row : Report} (raises : Bool)
      (hq : s.requests[q]? = some ⟨e, .commit row⟩) :
      Effect s (.commitInsert q raises)
        { s.setPc q (if raises then .done .serverError else .start row.id none) with
          reports := s.reports ++ [row]
          history := .inserted q row.id :: s.history }
  | reset {q : ℕ} {e : Endpoint} {loaded : Report} (now : Time) (raises : Bool)
      (hq : s.requests[q]? = some ⟨e, .reset loaded⟩) :
      Effect s (.commitReset q now raises)
        { s.setPc q (if raises then .done .serverError
            else .start loaded.id (some (loaded.assignStatus .queued now))) with
          reports := commitStatus s.reports loaded .queued now
          history := .ofCommit (.request q) loaded .queued
            (commitStatus s.reports loaded .queued now) :: s.history }
  | started {q : ℕ} {e : Endpoint} {reportId : String} {held : Option Report}
      (outcome : StartOutcome) (hq : s.requests[q]? = some ⟨e, .start reportId held⟩) :
      Effect s (.start q outcome)
        { s.setPc q (match outcome with
            | .accepted => .done (e.started reportId)
            | .rejected cause | .acceptedButRaised cause => .startFailed reportId cause held) with
          runs := if outcome.reachesServer then startWorkflow s.runs reportId else s.runs
          history := .startCalled q reportId outcome :: s.history }
  | startFailed {q : ℕ} {e : Endpoint} {loaded : Report} {cause : String} (now : Time)
      (hq : s.requests[q]? = some ⟨e, .markStartFailed loaded cause⟩) :
      Effect s (.commitStartFailed q now)
        { s.setPc q (.done (e.startFailed loaded.id cause)) with
          reports := commitStatus s.reports loaded .workflowStartFailed now
          history := .ofCommit (.request q) loaded .workflowStartFailed
            (commitStatus s.reports loaded .workflowStartFailed now) :: s.history }
  | scheduled {ρ : ℕ} {run : Run} {call : ActivityCall} (hρ : s.runs[ρ]? = some run)
      (hcall : run.pc.call run.reportId = some call) (hopen : run.isOpen = true)
      (hout : run.outstanding = none) :
      Effect s (.schedule ρ)
        { s with
          runs := s.runs.set ρ
            { run with attempts := run.attempts + 1, outstanding := some s.attempts.length }
          attempts := s.attempts ++ [⟨ρ, call.activity, .running⟩] }
  | runMoved {a : Action} {ρ : ℕ} {run run' : Run} (hρ : s.runs[ρ]? = some run)
      (hopen : run.isOpen = true) (hm : RunMove s ρ run a run') : Effect s a (s.setRun ρ run')
  | attemptMoved {a : Action} {i : ℕ} {x : Attempt} {p : AttemptPhase}
      (hx : s.attempts[i]? = some x) (hm : AttemptMove s i a x.activity x.phase p) :
      Effect s a (s.setPhase i p)
  | marked {i : ℕ} {x : Attempt} {loaded : Report} {reportId : String} {status : ReportStatus}
      {result : Except Failure Value} (input : Input) (hx : s.attempts[i]? = some x)
      (hp : x.phase = .loaded loaded) (hw : x.activity.statusWrite = some (reportId, status))
      (hresult : result = .ok .null ∨ ∃ e, result = .error e) :
      Effect s (.exec i input)
        { s.setPhase i (.finished result) with
          reports := commitStatus s.reports loaded status input.now
          history := .ofCommit (.attempt i) loaded status
            (commitStatus s.reports loaded status input.now) :: s.history }
  | upserted {a : Action} {i : ℕ} {x : Attempt} {call : UpsertCall} {v : Value} {u : Upserts}
      {b : Upserts.Action} {p : AttemptPhase}
      (ha : (∃ input, a = .exec i input) ∨ ∃ e, a = .failAttempt i e)
      (hx : s.attempts[i]? = some x) (hc : x.activity.upsertCall = some (call, v))
      (hu : s.upserts.step b = some u) (hm : UpsertMove s.upserts u call v b x.phase p) :
      Effect s a { s.setPhase i p with upserts := u }
  | published {i : ℕ} {x : Attempt} {m : Message} {next p : AttemptPhase} (input : Input)
      (hx : s.attempts[i]? = some x) (hm : PublishMove x.activity x.phase m next)
      (hp : p = next ∨ ∃ e, p = .finished (.error e)) :
      Effect s (.exec i input) { s.setPhase i p with stream := s.store m }

variable {s s' : System} {a : Action}

/-! ## The list is complete -/

theorem effect_of_lookup {q : ℕ} (h : s.lookup q = some s') : Effect s (.lookup q) s' := by
  unfold lookup at h
  split at h
  · rename_i payload key hq
    cases hfind : s.findReportByIdempotencyKey key with
    | none =>
      simp only [hfind, Option.some.injEq] at h
      exact h ▸ .requestMoved hq .missed
    | some existing =>
      simp only [hfind, Option.some.injEq] at h
      exact h ▸ .requestMoved hq (.found hfind)
  · cases h

theorem effect_of_insert {q : ℕ} {reportId : String} {now : Time}
    (h : s.insert q reportId now = some s') : Effect s (.insert q reportId now) s' := by
  unfold insert at h
  split at h
  · rename_i payload key hq
    dsimp only at h
    split_ifs at h with hcollides hkey hwait
    · obtain ⟨k, rfl⟩ := Option.isSome_iff_exists.mp hkey
      exact (Option.some.inj h) ▸ .requestMoved hq (.conflict reportId now)
    · obtain rfl : key = none := by simpa using hkey
      exact (Option.some.inj h) ▸ .requestMoved hq (.raised reportId now)
    · push Not at hcollides hwait
      exact (Option.some.inj h) ▸ .requestMoved hq (.inserted reportId now hcollides hwait)
  · cases h

theorem effect_of_relookup {q : ℕ} (h : s.relookup q = some s') : Effect s (.relookup q) s' := by
  unfold relookup at h
  split at h
  · rename_i payload key hq
    cases hfind : s.findReportByIdempotencyKey key with
    | none =>
      simp only [hfind, Option.some.injEq] at h
      exact h ▸ .requestMoved hq .remissed
    | some existing =>
      simp only [hfind, Option.some.injEq] at h
      exact h ▸ .requestMoved hq (.refound hfind)
  · cases h

theorem effect_of_loadForReprocess {q : ℕ} (h : s.loadForReprocess q = some s') :
    Effect s (.loadForReprocess q) s' := by
  unfold loadForReprocess at h
  split at h
  · rename_i reportId hq
    cases hget : s.getReport reportId with
    | none =>
      simp only [hget, Option.some.injEq] at h
      exact h ▸ .requestMoved hq .notFound
    | some report =>
      simp only [hget, Option.some.injEq] at h
      exact h ▸ .requestMoved hq (.loaded hget)
  · cases h

theorem effect_of_loadStartFailed {q : ℕ} (h : s.loadStartFailed q = some s') :
    Effect s (.loadStartFailed q) s' := by
  unfold loadStartFailed at h
  split at h
  · rename_i e reportId cause hq
    cases hget : s.getReport reportId with
    | none =>
      simp only [hget, Option.some.injEq] at h
      exact h ▸ .requestMoved hq (.missing hget)
    | some report =>
      simp only [hget, Option.some.injEq] at h
      exact h ▸ .requestMoved hq (.reloaded hget)
  · cases h

theorem effect_of_dropStartFailed {q : ℕ} (h : s.dropStartFailed q = some s') :
    Effect s (.dropStartFailed q) s' := by
  obtain ⟨r, hq, h⟩ := Option.bind_eq_some_iff.mp h
  obtain ⟨⟨reportId, cause⟩, hpc, h⟩ := Option.bind_eq_some_iff.mp h
  exact (Option.some.inj h) ▸ .requestMoved hq (.dropped hpc)

theorem effect_of_fail {q : ℕ} (h : s.fail q = some s') : Effect s (.fail q) s' := by
  unfold fail at h
  split at h
  · rename_i r hq
    split_ifs at h with hpc
    exact (Option.some.inj h) ▸ .requestMoved hq (.failed hpc)
  · cases h

theorem effect_of_stop {q : ℕ} (h : s.stop q = some s') : Effect s (.stop q) s' := by
  unfold stop at h
  split at h
  · rename_i r hq
    split_ifs at h with hpc
    exact (Option.some.inj h) ▸ .requestMoved hq (.stopped (by simpa using hpc))
  · cases h

theorem effect_of_schedule {ρ : ℕ} (h : s.schedule ρ = some s') : Effect s (.schedule ρ) s' := by
  obtain ⟨run, hρ, h⟩ := Option.bind_eq_some_iff.mp h
  obtain ⟨call, hcall, h⟩ := Option.bind_eq_some_iff.mp h
  split_ifs at h with hready
  exact (Option.some.inj h) ▸ .scheduled hρ hcall hready.1 hready.2

theorem effect_of_complete {ρ : ℕ} (h : s.complete ρ = some s') : Effect s (.complete ρ) s' := by
  obtain ⟨run, hρ, h⟩ := Option.bind_eq_some_iff.mp h
  obtain ⟨a, hout, h⟩ := Option.bind_eq_some_iff.mp h
  obtain ⟨x, hx, h⟩ := Option.bind_eq_some_iff.mp h
  split at h
  · rename_i result hp
    split_ifs at h with hopen
    cases result with
    | ok v =>
      obtain ⟨run', hrun, rfl⟩ := Option.map_eq_some_iff.mp h
      exact .runMoved hρ hopen (.succeeded hout hx hp hrun)
    | error e => exact (Option.some.inj h) ▸ .runMoved hρ hopen (.failed hout hx hp)
  · cases h

theorem effect_of_timeout {ρ : ℕ} (h : s.timeout ρ = some s') : Effect s (.timeout ρ) s' := by
  obtain ⟨run, hρ, h⟩ := Option.bind_eq_some_iff.mp h
  split_ifs at h with hready
  obtain ⟨a, hout⟩ := Option.isSome_iff_exists.mp hready.2
  exact (Option.some.inj h) ▸ .runMoved hρ hready.1 (.timedOut hout)

theorem effect_of_returnValue {i : ℕ} {x : Attempt} {v : Value} {input : Input}
    (hx : s.attempts[i]? = some x) (h : s.returnValue i v x.phase = some s')
    (hm : AttemptMove s i (.exec i input) x.activity .running (.finished (.ok v))) :
    Effect s (.exec i input) s' := by
  cases hp : x.phase with
  | running =>
    rw [hp] at h
    exact (Option.some.inj h) ▸ .attemptMoved hx (hp ▸ hm)
  | _ => simp [returnValue, hp] at h

theorem effect_of_loadReportActivity {i : ℕ} {x : Attempt} {reportId : String} {input : Input}
    (hx : s.attempts[i]? = some x) (ha : x.activity = .loadReport reportId)
    (h : s.loadReportActivity i reportId x.phase = some s') : Effect s (.exec i input) s' := by
  cases hp : x.phase with
  | running =>
    rw [hp, loadReportActivity] at h
    refine (Option.some.inj h) ▸ .attemptMoved hx ?_
    rw [ha, hp]
    cases hget : s.getReport reportId with
    | none => exact .raised input _ (.inl rfl)
    | some report => exact .loaded input hget
  | _ => simp [loadReportActivity, hp] at h

theorem effect_of_updateReportStatus {i : ℕ} {x : Attempt} {reportId : String}
    {status : ReportStatus} {input : Input} (hx : s.attempts[i]? = some x)
    (hw : x.activity.statusWrite = some (reportId, status))
    (h : s.updateReportStatus i reportId status input x.phase = some s') :
    Effect s (.exec i input) s' := by
  cases hp : x.phase with
  | running =>
    rw [hp, updateReportStatus] at h
    refine (Option.some.inj h) ▸ .attemptMoved hx ?_
    rw [hp]
    cases hget : s.getReport reportId with
    | none => exact .raised input _ (.inl rfl)
    | some report => exact .selected input hw hget
  | loaded report =>
    rw [hp, updateReportStatus] at h
    refine (Option.some.inj h) ▸ .marked input hx hp hw ?_
    cases input.commitRaises with
    | none => exact .inl rfl
    | some e => exact .inr ⟨e, rfl⟩
  | _ => simp [updateReportStatus, hp] at h

theorem effect_of_upsertThenReturn {i : ℕ} {x : Attempt} {call : UpsertCall} {v : Value}
    {input : Input} (hx : s.attempts[i]? = some x) (hc : x.activity.upsertCall = some (call, v))
    (h : s.upsertThenReturn i call v input x.phase = some s') : Effect s (.exec i input) s' := by
  cases hp : x.phase with
  | running =>
    rw [hp, upsertThenReturn] at h
    obtain ⟨u, hu, rfl⟩ := Option.map_eq_some_iff.mp h
    exact .upserted (.inl ⟨input, rfl⟩) hx hc hu (hp ▸ .began)
  | upserting t =>
    rw [hp, upsertThenReturn] at h
    obtain ⟨u, hu, rfl⟩ := Option.map_eq_some_iff.mp h
    refine .upserted (.inl ⟨input, rfl⟩) hx hc hu ?_
    rw [hp]
    split
    · rename_i hended
      exact .advanced _ _ hended
    · rename_i hended
      cases input.commitRaises with
      | none => exact .returned _ _ hended
      | some e => exact .raised _ _ e
    · exact .raised _ _ _
    · exact .raised _ _ _
  | _ => simp [upsertThenReturn, hp] at h

theorem effect_of_publish {i : ℕ} {x : Attempt} {subject reportId : String} {payload : Payload}
    {next : AttemptPhase} {delivery : Delivery} (input : Input) (hx : s.attempts[i]? = some x)
    (hp : x.phase = .running ∨ ∃ now, x.phase = .triagedPublished now)
    (hm : ∀ storedAt, PublishMove x.activity x.phase
      ⟨subject, msgId subject reportId, payload, storedAt⟩ next)
    (h : some (s.publish i subject reportId payload next delivery) = some s') :
    Effect s (.exec i input) s' := by
  rw [← Option.some.inj h]
  cases delivery with
  | acked storedAt => exact .published input hx (hm storedAt) (.inl rfl)
  | storedUnacked storedAt e => exact .published input hx (hm storedAt) (.inr ⟨e, rfl⟩)
  | lost e => exact .attemptMoved hx (.raised input e hp)

theorem effect_of_exec {i : ℕ} {input : Input} (h : s.exec i input = some s') :
    Effect s (.exec i input) s' := by
  obtain ⟨x, hx, h⟩ := Option.bind_eq_some_iff.mp h
  cases ha : x.activity with
  | loadReport reportId =>
    simp only [ha] at h
    exact effect_of_loadReportActivity hx ha h
  | markReportProcessing reportId | markReportClassified reportId | markReportFailed reportId =>
    simp only [ha] at h
    exact effect_of_updateReportStatus hx (by rw [ha]; rfl) h
  | classifyReport report =>
    simp only [ha] at h
    exact effect_of_returnValue hx h (ha ▸ .classified input)
  | scorePriority report category =>
    simp only [ha] at h
    exact effect_of_returnValue hx h (ha ▸ .scored input)
  | decideReview category priorityLevel confidence =>
    simp only [ha] at h
    exact effect_of_returnValue hx h (ha ▸ .decided input)
  | persistClassification | routeQueue =>
    simp only [ha] at h
    exact effect_of_upsertThenReturn hx (by rw [ha]; rfl) h
  | publishTriageEvents =>
    simp only [ha] at h
    cases hp : x.phase with
    | running =>
      rw [hp, publishTriageEventsActivity] at h
      exact effect_of_publish input hx (.inl hp)
        (fun storedAt => by rw [ha, hp]; exact .triaged _ storedAt) h
    | triagedPublished now =>
      rw [hp, publishTriageEventsActivity] at h
      exact effect_of_publish input hx (.inr ⟨now, hp⟩)
        (fun storedAt => by rw [ha, hp]; exact .queueRouted storedAt) h
    | _ => simp [publishTriageEventsActivity, hp] at h

theorem effect_of_failAttempt {i : ℕ} {e : Failure} (h : s.failAttempt i e = some s') :
    Effect s (.failAttempt i e) s' := by
  obtain ⟨x, hx, h⟩ := Option.bind_eq_some_iff.mp h
  split at h
  · cases h
  · rename_i t call v hp hc
    obtain ⟨u, hu, rfl⟩ := Option.map_eq_some_iff.mp h
    exact .upserted (.inr ⟨e, rfl⟩) hx hc hu (hp ▸ .failed e)
  · rename_i hfin hups
    exact (Option.some.inj h) ▸ .attemptMoved hx (.failed e hfin)

theorem effect_of_step (h : s.step a = some s') : Effect s a s' := by
  cases a with
  | arrive endpoint => exact (Option.some.inj h) ▸ .arrived endpoint
  | lookup q => exact effect_of_lookup h
  | insert q reportId now => exact effect_of_insert h
  | commitInsert q raises =>
    simp only [step, commitInsert] at h
    split at h
    · rename_i hq
      exact (Option.some.inj h) ▸ .inserted raises hq
    · cases h
  | relookup q => exact effect_of_relookup h
  | loadForReprocess q => exact effect_of_loadForReprocess h
  | commitReset q now raises =>
    simp only [step, commitReset] at h
    split at h
    · rename_i hq
      exact (Option.some.inj h) ▸ .reset now raises hq
    · cases h
  | start q outcome =>
    simp only [step, start] at h
    split at h
    · rename_i hq
      exact (Option.some.inj h) ▸ .started outcome hq
    · cases h
  | loadStartFailed q => exact effect_of_loadStartFailed h
  | commitStartFailed q now =>
    simp only [step, commitStartFailed] at h
    split at h
    · rename_i hq
      exact (Option.some.inj h) ▸ .startFailed now hq
    · cases h
  | dropStartFailed q => exact effect_of_dropStartFailed h
  | fail q => exact effect_of_fail h
  | stop q => exact effect_of_stop h
  | schedule ρ => exact effect_of_schedule h
  | complete ρ => exact effect_of_complete h
  | timeout ρ => exact effect_of_timeout h
  | exec i input => exact effect_of_exec h
  | failAttempt i e => exact effect_of_failAttempt h

end System

end ReportTriage

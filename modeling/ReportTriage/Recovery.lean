import Mathlib.Data.Fintype.EquivFin
import ReportTriage.Draining
import ReportTriage.Healing

/-!
# Recovery

No reachable state is a dead end. Whatever has crashed, is half done or has failed, the processes
can come to rest, and from there one request to reprocess a report takes it to what the rules
make of it, its nine activities executed one after the other, without touching another report.
So all reports can be taken there, one by one.

## Main definitions

* `System.Execs`, `System.exists_finished` — an attempt that executes by itself returns.
* `System.exists_next` — a run goes on to its next await.
* `System.recovers_one`, `System.recovers_list` — one report, and one after the other.
* `System.recovers` — from any reachable state, one report and all of them.
-/

namespace ReportTriage

open WriteBack (column_eq_assigned_iff)

/-- A run that does not fail is over once it has returned. -/
theorem WorkflowPc.isClosed_iff_rank {pc : WorkflowPc} (h : pc.isFailing = false) :
    pc.isClosed = true ↔ pc.rank = 9 := by
  cases pc with
  | markFailed | raised | markFailedRaised => cases h
  | _ => simp [isClosed, rank]

theorem Run.isOpen_of_rank {run : Run} (hterminated : run.terminated = false)
    (hfailing : run.pc.isFailing = false) (hrank : run.pc.rank ≠ 9) : run.isOpen = true := by
  rw [isOpen, hterminated, Bool.eq_false_of_not_eq_true
    ((WorkflowPc.isClosed_iff_rank hfailing).not.mpr hrank)]
  rfl

/-! ## An attempt by itself -/

namespace Upserts

variable {u : Upserts}

theorem step_of_classification {a : Upsert.Action ClassificationArgs String Time}
    {T : ClassificationTable} (h : u.classifications.step upsertClassification a = some T) :
    u.step (.classification a) = some { u with classifications := T } := by
  rw [step, h]
  rfl

theorem step_of_queueItem {a : Upsert.Action QueueItemArgs String Time} {T : QueueTable}
    (h : u.queueItems.step upsertQueueItem a = some T) :
    u.step (.queueItem a) = some { u with queueItems := T } := by
  rw [step, h]
  rfl

/-- An upsert called while no transaction is open commits, by four statements. -/
theorem exists_run_alone (hidle : u.Idle) (call : UpsertCall) (now : Time) :
    ∃ (newId : String) (u₁ u₂ u₃ u₄ : Upserts), u.step call.begin = some u₁ ∧
      u₁.step (call.advance (u.nextTxn call) newId now) = some u₂ ∧
      u₂.step (call.advance (u.nextTxn call) newId now) = some u₃ ∧
      u₃.step (call.advance (u.nextTxn call) newId now) = some u₄ ∧
      u₂.ended (u.nextTxn call) call = none ∧ u₃.ended (u.nextTxn call) call = none ∧
      u₄.ended (u.nextTxn call) call = some none := by
  have hfresh : ∀ ids : List String, ∃ newId, newId ∉ ids := fun ids => by
    obtain ⟨newId, hnew⟩ := Infinite.exists_notMem_finset ids.toFinset
    exact ⟨newId, by simpa using hnew⟩
  cases call with
  | classification args =>
    obtain ⟨newId, hnew⟩ := hfresh (u.classifications.rows.map ReportClassification.id)
    have hfree : ∀ c ∈ u.classifications.rows, upsertClassification.id c ≠ newId :=
      fun c hc hid => hnew (List.mem_map.mpr ⟨c, hc, hid⟩)
    obtain ⟨T₁, T₂, T₃, T₄, h₁, h₂, h₃, h₄, ⟨-, ⟨x₂, hx₂, hp₂⟩, x₃, hx₃, hp₃⟩, ⟨x₄, hx₄, hp₄⟩, -⟩ :=
      Upsert.exists_run_alone (fun t => hidle (.inl t)) args hfree now
    refine ⟨newId, { u with classifications := T₁ }, { u with classifications := T₂ },
      { u with classifications := T₃ }, { u with classifications := T₄ },
      step_of_classification h₁, step_of_classification h₂, step_of_classification h₃,
      step_of_classification h₄, ?_, ?_, ?_⟩ <;> simp only [ended, nextTxn, hx₂, hx₃, hx₄]
    · exact hp₂
    · exact hp₃
    · exact congrArg Upsert.Phase.ended hp₄
  | queueItem args =>
    obtain ⟨newId, hnew⟩ := hfresh (u.queueItems.rows.map ReviewQueueItem.id)
    have hfree : ∀ i ∈ u.queueItems.rows, upsertQueueItem.id i ≠ newId :=
      fun i hi hid => hnew (List.mem_map.mpr ⟨i, hi, hid⟩)
    obtain ⟨T₁, T₂, T₃, T₄, h₁, h₂, h₃, h₄, ⟨-, ⟨x₂, hx₂, hp₂⟩, x₃, hx₃, hp₃⟩, ⟨x₄, hx₄, hp₄⟩, -⟩ :=
      Upsert.exists_run_alone (fun t => hidle (.inr t)) args hfree now
    refine ⟨newId, { u with queueItems := T₁ }, { u with queueItems := T₂ },
      { u with queueItems := T₃ }, { u with queueItems := T₄ },
      step_of_queueItem h₁, step_of_queueItem h₂, step_of_queueItem h₃,
      step_of_queueItem h₄, ?_, ?_, ?_⟩ <;> simp only [ended, nextTxn, hx₂, hx₃, hx₄]
    · exact hp₂
    · exact hp₃
    · exact congrArg Upsert.Phase.ended hp₄

end Upserts

namespace System

/-- The action executes a statement of attempt `i`. -/
def Execs (i : ℕ) (_ : System) (a : Action) : Prop := ∃ input, a = .exec i input

/-- What the environment supplies while nothing goes wrong. -/
def calm (newId : String) : Input :=
  { now := 0, newId := newId, commitRaises := none, delivery := .acked 0, driverText := "" }

section
variable [UnicodeData] {s s' : System} {i ρ : ℕ} {r : String} {x : Attempt} {run : Run}

/-- An attempt that executes leaves the requests, the runs and the other attempts alone. -/
theorem frame_of_execs (hp : machine.Path (Execs i) s s') :
    s'.requests = s.requests ∧ s'.runs = s.runs ∧
      ∀ j, j ≠ i → s'.attempts[j]? = s.attempts[j]? := by
  refine hp.relation (R := fun s s' : System => s'.requests = s.requests ∧ s'.runs = s.runs ∧
      ∀ j, j ≠ i → s'.attempts[j]? = s.attempts[j]?) (fun _ => ⟨rfl, rfl, fun _ _ => rfl⟩)
    (fun h h' => ⟨h'.1.trans h.1, h'.2.1.trans h.2.1, fun j hj =>
      (h'.2.2 j hj).trans (h.2.2 j hj)⟩) fun {t a u} _ hok hs => ?_
  obtain ⟨input, rfl⟩ := hok
  have he : Effect t (.exec i input) u := effect_of_step hs
  have hset : ∀ p j, j ≠ i → (t.setPhase i p).attempts[j]? = t.attempts[j]? :=
    fun p j hj => Slots.modify_of_ne hj
  cases he with
  | @attemptMoved _ k y p hy hm =>
    obtain ⟨σ, activity, phase⟩ := y
    obtain rfl : k = i := by cases hm <;> rfl
    exact ⟨rfl, rfl, hset p⟩
  | marked | published => exact ⟨rfl, rfl, hset _⟩
  | upserted ha =>
    obtain ⟨input', ha⟩ := ha.resolve_right (by simp)
    cases ha
    exact ⟨rfl, rfl, hset _⟩
  | requestMoved _ hm => nomatch hm
  | runMoved _ _ hm => nomatch hm

omit [UnicodeData] in
theorem attempts_setPhase (hx : s.attempts[i]? = some x) (p : AttemptPhase) (u : Upserts) :
    ({ s.setPhase i p with upserts := u } : System).attempts[i]? =
      some { x with phase := p } :=
  Slots.modify_self hx

/-- An upsert activity that executes by itself returns. -/
theorem exists_upserted (hidle : s.upserts.Idle) (hx : s.attempts[i]? = some x)
    (hp : x.phase = .running) {call : UpsertCall} {v : Value}
    (hc : x.activity.upsertCall = some (call, v)) :
    ∃ s', machine.Path (Execs i) s s' ∧
      s'.attempts[i]? = some { x with phase := .finished (.ok v) } := by
  obtain ⟨newId, u₁, u₂, u₃, u₄, h₁, h₂, h₃, h₄, hended₂, hended₃, hended₄⟩ :=
    Upserts.exists_run_alone hidle call 0
  set n := s.upserts.nextTxn call
  let s₁ : System := { s.setPhase i (.upserting n) with upserts := u₁ }
  let s₂ : System := { s₁.setPhase i (.upserting n) with upserts := u₂ }
  let s₃ : System := { s₂.setPhase i (.upserting n) with upserts := u₃ }
  let s₄ : System := { s₃.setPhase i (.finished (.ok v)) with upserts := u₄ }
  have hx₁ : s₁.attempts[i]? = _ := attempts_setPhase hx _ _
  have hx₂ : s₂.attempts[i]? = _ := attempts_setPhase hx₁ _ _
  have hx₃ : s₃.attempts[i]? = _ := attempts_setPhase hx₂ _ _
  have hs₁ : s.exec i (calm newId) = some s₁ := by
    rw [exec_eq_upsertThenReturn hx hc, hp, upsertThenReturn, h₁]
    rfl
  have hs₂ : s₁.exec i (calm newId) = some s₂ := by
    rw [exec_eq_upsertThenReturn hx₁ hc, upsertThenReturn]
    simp only [s₁, calm, h₂, Option.map_some, hended₂]
    rfl
  have hs₃ : s₂.exec i (calm newId) = some s₃ := by
    rw [exec_eq_upsertThenReturn hx₂ hc, upsertThenReturn]
    simp only [s₂, calm, h₃, Option.map_some, hended₃]
    rfl
  have hs₄ : s₃.exec i (calm newId) = some s₄ := by
    rw [exec_eq_upsertThenReturn hx₃ hc, upsertThenReturn]
    simp only [s₃, calm, h₄, Option.map_some, hended₄]
    rfl
  have hok : ∀ t, Execs i t (.exec i (calm newId)) := fun _ => ⟨_, rfl⟩
  exact ⟨s₄, (((Machine.Path.single (hok s) hs₁).tail (hok s₁) hs₂).tail (hok s₂) hs₃).tail (hok s₃)
    hs₄, attempts_setPhase hx₃ _ _⟩

theorem exec_eq_updateReportStatus {status : ReportStatus} (hx : s.attempts[i]? = some x)
    (hw : x.activity.statusWrite = some (r, status)) (input : Input) :
    s.exec i input = s.updateReportStatus i r status input x.phase := by
  obtain ⟨ρ, activity, phase⟩ := x
  simp only [exec, hx, Option.bind_eq_bind, Option.bind_some]
  cases activity <;> cases hw <;> rfl

/-- An activity that marks its report, and executes by itself, leaves the status it is to
write. -/
theorem exists_marked {status : ReportStatus} {row : Report} (hx : s.attempts[i]? = some x)
    (hp : x.phase = .running) (hw : x.activity.statusWrite = some (r, status))
    (hrow : s.getReport r = some row) :
    ∃ s', machine.Path (Execs i) s s' ∧
      s'.attempts[i]? = some { x with phase := .finished (.ok .null) } ∧
      s'.status r = some status.value := by
  let s₁ : System := s.setPhase i (.loaded row)
  let reports := commitStatus s.reports row status 0
  let s₂ : System := { s₁.setPhase i (.finished (.ok .null)) with
    reports := reports
    history := .ofCommit (.attempt i) row status reports :: s.history }
  have hx₁ : s₁.attempts[i]? = some { x with phase := .loaded row } := Slots.modify_self hx
  have hs₁ : s.exec i (calm "") = some s₁ := by
    rw [exec_eq_updateReportStatus hx hw, hp, updateReportStatus, hrow]
  have hs₂ : s₁.exec i (calm "") = some s₂ := by
    rw [exec_eq_updateReportStatus hx₁ hw, updateReportStatus]
    rfl
  have hok : ∀ t, Execs i t (.exec i (calm "")) := fun _ => ⟨_, rfl⟩
  have hx₂ : s₂.attempts[i]? = some { x with phase := .finished (.ok .null) } :=
    attempts_setPhase hx₁ _ s₁.upserts
  refine ⟨s₂, (Machine.Path.single (hok s) hs₁).tail (hok s₁) hs₂, hx₂, ?_⟩
  -- The row it has loaded is the one it writes to.
  have hid := (getReport_eq_some hrow).2
  rw [status_commitStatus (s := s) rfl r, if_pos hid.symm, System.status, hrow, Option.map_some,
    Option.map_some, column_eq_assigned_iff.mpr]
  by_cases hst : row.status = status.value
  · exact .inr hst
  · exact .inl hst

/-- An activity that is a single statement returns with it. -/
theorem exists_returned {v : Value} (hx : s.attempts[i]? = some x)
    (hexec : s.exec i (calm "") = some (s.setPhase i (.finished (.ok v)))) :
    ∃ s', machine.Path (Execs i) s s' ∧
      s'.attempts[i]? = some { x with phase := .finished (.ok v) } :=
  ⟨_, .single ⟨calm "", rfl⟩ hexec, Slots.modify_self hx⟩

/-- Both events are published. -/
theorem exists_published {category priorityLevel queueName : String} {requiresReview : Bool}
    {confidence : ℚ} (hx : s.attempts[i]? = some ⟨ρ,
      .publishTriageEvents r category priorityLevel requiresReview confidence queueName,
      .running⟩) :
    ∃ s', machine.Path (Execs i) s s' ∧ s'.attempts[i]? = some ⟨ρ,
      .publishTriageEvents r category priorityLevel requiresReview confidence queueName,
      .finished (.ok .null)⟩ := by
  let s₁ := s.publish i subjectReportTriaged r
    (.triaged ⟨r, category, priorityLevel, requiresReview, confidence, 0⟩) (.triagedPublished 0)
    (.acked 0)
  have hx₁ : s₁.attempts[i]? = some ⟨ρ, _, .triagedPublished 0⟩ := Slots.modify_self hx
  have hs₁ : s.exec i (calm "") = some s₁ := by
    simp only [exec, hx, Option.bind_eq_bind, Option.bind_some]
    rfl
  have hs₂ : s₁.exec i (calm "") = some (s₁.publish i subjectQueueRouted r
      (.queueRouted ⟨r, queueName, "pending", 0⟩) (.finished (.ok .null)) (.acked 0)) := by
    simp only [exec, hx₁, Option.bind_eq_bind, Option.bind_some]
    rfl
  have hok : ∀ t, Execs i t (.exec i (calm "")) := fun _ => ⟨_, rfl⟩
  exact ⟨_, (Machine.Path.single (hok s) hs₁).tail (hok s₁) hs₂, Slots.modify_self hx₁⟩

/-- The activity a run awaits, executed by itself, returns. -/
theorem exists_finished (hidle : s.upserts.Idle) (hstored : (s.getReport r).isSome)
    {pc : WorkflowPc} {call : ActivityCall} (hcall : pc.call r = some call)
    (hx : s.attempts[i]? = some ⟨ρ, call.activity, .running⟩) :
    ∃ s' v, machine.Path (Execs i) s s' ∧
      s'.attempts[i]? = some ⟨ρ, call.activity, .finished (.ok v)⟩ ∧
      ∀ r' status, call.activity.statusWrite = some (r', status) →
        s'.status r' = some status.value := by
  obtain ⟨row, hrow⟩ := Option.isSome_iff_exists.mp hstored
  have hnone : ∀ {s' : System} (r' : String) (status : ReportStatus),
      none = some (r', status) → s'.status r' = some status.value := by
    intro s' r' status h
    cases h
  cases pc with
  | load =>
    cases hcall
    have hexec : s.exec i (calm "") =
        some (s.setPhase i (.finished (.ok (.report row.load)))) := by
      simp only [exec, hx, Option.bind_eq_bind, Option.bind_some, loadReportActivity, hrow]
    obtain ⟨s', hpath, hx'⟩ := exists_returned hx hexec
    exact ⟨s', _, hpath, hx', hnone⟩
  | classify report =>
    cases hcall
    have hexec : s.exec i (calm "") = some (s.setPhase i (.finished (.ok (.classification
        (classifyReport report.reasonCode report.description report.metadata))))) := by
      simp only [exec, hx, Option.bind_eq_bind, Option.bind_some, returnValue]
    obtain ⟨s', hpath, hx'⟩ := exists_returned hx hexec
    exact ⟨s', _, hpath, hx', hnone⟩
  | scorePriority report c =>
    cases hcall
    have hexec : s.exec i (calm "") = some (s.setPhase i (.finished (.ok (.text
        (ReportTriage.scorePriority c.category report.description report.metadata))))) := by
      simp only [exec, hx, Option.bind_eq_bind, Option.bind_some, returnValue]
    obtain ⟨s', hpath, hx'⟩ := exists_returned hx hexec
    exact ⟨s', _, hpath, hx', hnone⟩
  | decideReview c priorityLevel =>
    cases hcall
    have hexec : s.exec i (calm "") = some (s.setPhase i (.finished (.ok (.flag
        (decideRequiresReview c.category priorityLevel c.confidence))))) := by
      simp only [exec, hx, Option.bind_eq_bind, Option.bind_some, returnValue]
    obtain ⟨s', hpath, hx'⟩ := exists_returned hx hexec
    exact ⟨s', _, hpath, hx', hnone⟩
  | markProcessing | markClassified | markFailed =>
    cases hcall
    obtain ⟨s', hpath, hx', hstatus⟩ := exists_marked hx rfl rfl hrow
    refine ⟨s', _, hpath, hx', ?_⟩
    rintro r' status ⟨⟩
    exact hstatus
  | persist | route =>
    cases hcall
    obtain ⟨s', hpath, hx'⟩ := exists_upserted hidle hx rfl rfl
    exact ⟨s', _, hpath, hx', hnone⟩
  | publish =>
    cases hcall
    obtain ⟨s', hpath, hx'⟩ := exists_published hx
    exact ⟨s', _, hpath, hx', hnone⟩
  | returned | raised | markFailedRaised => cases hcall

/-! ## A run by itself -/

/-- The attempt belongs to a run of the report, and so do its statements. -/
theorem isOf_of_execs (hx : s.attempts[i]? = some x) (hρ : s.runs[x.run]? = some run)
    (hid : run.reportId = r) (hp : machine.Path (Execs i) s s') :
    machine.Path (fun s a => s.isOf r a = true) s s' := by
  have hattempt : machine.Path (fun s a => s.isOf r a = true) s s' ∧
      ∃ p, s'.attempts[i]? = some { x with phase := p } := by
    induction hp with
    | refl => exact ⟨.refl, x.phase, hx⟩
    | @tail t u a hp hok hs ih =>
      obtain ⟨hpath, p, ht⟩ := ih
      obtain ⟨input, rfl⟩ := hok
      have he : Effect t (.exec i input) u := effect_of_step hs
      obtain ⟨p', ht'⟩ := he.attempt_kept ht
      refine ⟨hpath.tail ?_ hs, p', ht'⟩
      obtain ⟨-, hruns, -⟩ := frame_of_execs hp
      simp [isOf, ht, hruns, hρ, hid]
  exact hattempt.1

/-- **A run goes on to its next await**, while nothing else executes. -/
theorem exists_next (h : machine.Reachable s) (hs : s.Halted) (hρ : s.runs[ρ]? = some run)
    (hopen : run.isOpen = true) (hout : run.outstanding = none)
    (hstored : (s.getReport run.reportId).isSome) :
    ∃ s' pc', machine.Path (fun s a => s.isOf run.reportId a = true) s s' ∧ s'.Halted ∧
      (∃ v, run.pc.resume run.reportId v = some pc') ∧
      s'.runs = s.runs.set ρ { run with pc := pc', attempts := 0, outstanding := none } ∧
      s'.requests = s.requests ∧
      ∀ call r' status, run.pc.call run.reportId = some call →
        call.activity.statusWrite = some (r', status) → s'.status r' = some status.value := by
  have hclosed : run.pc.isClosed = false := by
    simp only [Run.isOpen, Bool.and_eq_true, Bool.not_eq_true'] at hopen
    exact hopen.2
  obtain ⟨call, hcall⟩ := WorkflowPc.call_of_not_isClosed run.reportId hclosed
  -- Schedule.
  let i := s.attempts.length
  let run₁ : Run := { run with attempts := run.attempts + 1, outstanding := some i }
  let s₁ : System := { s with
    runs := s.runs.set ρ run₁
    attempts := s.attempts ++ [⟨ρ, call.activity, .running⟩] }
  have hs₁ : machine.step s (.schedule ρ) = some s₁ := by
    simp only [machine, step, schedule, hρ, hcall, hopen, hout, Option.bind_eq_bind,
      Option.bind_some, and_self, if_true]
    rfl
  have hx₁ : s₁.attempts[i]? = some ⟨ρ, call.activity, .running⟩ := List.getElem?_concat_length ..
  have hρ₁ : s₁.runs[ρ]? = some run₁ := Slots.set_self hρ
  -- Execute.
  obtain ⟨s₂, v, hp₂, hx₂, hstatus⟩ :=
    exists_finished (s := s₁) (hs.idle h) hstored hcall hx₁
  obtain ⟨hrequests, hruns, hattempts⟩ := frame_of_execs hp₂
  have hρ₂ : s₂.runs[ρ]? = some run₁ := hruns ▸ hρ₁
  -- Complete.
  have h₂ : machine.Reachable s₂ := (h.step hs₁).path hp₂
  have hcausal := causal_of_reachable h₂
  obtain ⟨pc', hresume, -⟩ := WorkflowPc.justified_resume (hcausal.pc ρ run₁ hρ₂) hcall
    (hcausal.returns i _ v hx₂ rfl)
  let run₃ : Run := { run with pc := pc', attempts := 0, outstanding := none }
  have hs₃ : machine.step s₂ (.complete ρ) = some (s₂.setRun ρ run₃) := by
    have hopen₁ : run₁.isOpen = true := hopen
    have hsucceeded : run₁.succeeded v = some run₃ := by
      rw [Run.succeeded, hresume]
      rfl
    simp only [machine, step, complete, hρ₂, hx₂, hopen₁, Option.bind_eq_bind, Option.bind_some,
      if_true, run₁, hsucceeded]
    rfl
  refine ⟨s₂.setRun ρ run₃, pc', ?_, ⟨?_, ?_⟩, ⟨v, hresume⟩, ?_, hrequests, ?_⟩
  · have hid : run₁.reportId = run.reportId := rfl
    refine ((Machine.Path.single ?_ hs₁).trans (isOf_of_execs hx₁ hρ₁ hid hp₂)).tail ?_ hs₃
    · simp [isOf, hρ]
    · simp [isOf, hρ₂, run₁]
  · exact fun r hr => hs.requests r (hrequests ▸ hr)
  · intro y hy
    obtain ⟨j, hj⟩ := List.getElem?_of_mem hy
    by_cases hji : j = i
    · subst hji
      rw [show (s₂.setRun ρ run₃).attempts = s₂.attempts from rfl, hx₂] at hj
      cases hj
      rfl
    · rcases Slots.append_cases ((hattempts j hji).symm.trans hj) with hold | ⟨hlen, -⟩
      · exact hs.attempts y (List.mem_of_getElem? hold)
      · exact (hji hlen).elim
  · change s₂.runs.set ρ run₃ = _
    rw [hruns]
    exact List.set_set ..
  · intro call' r' status hcall' hw
    rw [hcall] at hcall'
    cases hcall'
    exact hstatus r' status hw

/-! ## A reprocessed report -/

omit [UnicodeData] in
/-- The action is the arrival of a request to reprocess the report, or one of the parties that
follow from it. -/
def Serves (r : String) (s : System) (a : Action) : Prop :=
  a = .arrive (.reprocess r) ∨ s.isOf r a = true

/-- A request to reprocess a report starts a run of it. -/
theorem exists_started (hs : s.Halted) {row : Report} (hrow : s.getReport r = some row) :
    ∃ s', machine.Path (Serves r) s s' ∧ s'.Halted ∧ s'.runs = startWorkflow s.runs r ∧
      s'.requests.length = s.requests.length + 1 := by
  let q := s.requests.length
  let s₁ := s.arrive (.reprocess r)
  let s₂ := s₁.setPc q (.reset row)
  let reports := commitStatus s.reports row .queued 0
  let s₃ : System := { s₂.setPc q (.start row.id (some (row.assignStatus .queued 0))) with
    reports := reports
    history := .ofCommit (.request q) row .queued reports :: s.history }
  let s₄ : System := { s₃.setPc q (.done (Endpoint.started row.id (.reprocess r))) with
    runs := startWorkflow s.runs row.id
    history := .startCalled q row.id .accepted :: s₃.history }
  have hq₁ : s₁.requests[q]? = some ⟨.reprocess r, .getReport⟩ := List.getElem?_concat_length ..
  have hq₂ : s₂.requests[q]? = some ⟨.reprocess r, .reset row⟩ := Slots.modify_self hq₁
  have hq₃ : s₃.requests[q]? =
      some ⟨.reprocess r, .start row.id (some (row.assignStatus .queued 0))⟩ :=
    Slots.modify_self hq₂
  have hs₁ : machine.step s (.arrive (.reprocess r)) = some s₁ := rfl
  have hs₂ : machine.step s₁ (.loadForReprocess q) = some s₂ := by
    have hget : s₁.getReport r = some row := hrow
    simp only [machine, step, loadForReprocess, hq₁, hget, s₂]
  have hs₃ : machine.step s₂ (.commitReset q 0 false) = some s₃ := by
    simp only [machine, step, commitReset, hq₂]
    rfl
  have hs₄ : machine.step s₃ (.start q .accepted) = some s₄ := by
    simp only [machine, step, start, hq₃]
    rfl
  have hid := (getReport_eq_some hrow).2
  have hof : ∀ {t : System} {pc : RequestPc} {a : Action},
      t.requests[q]? = some ⟨.reprocess r, pc⟩ → a.request = some q → Serves r t a := by
    intro t pc a hq ha
    refine .inr ?_
    cases a <;> cases ha <;> simp [isOf, Action.request, hq, Endpoint.reprocesses]
  refine ⟨s₄, (((Machine.Path.single (.inl rfl) hs₁).tail (hof hq₁ rfl) hs₂).tail (hof hq₂ rfl)
    hs₃).tail (hof hq₃ rfl) hs₄, ⟨?_, hs.attempts⟩, ?_, ?_⟩
  · intro y hy
    obtain ⟨j, hj⟩ := List.getElem?_of_mem hy
    by_cases hjq : j = q
    · have hq₄ : s₄.requests[q]? = some ⟨.reprocess r, .done _⟩ := Slots.modify_self hq₃
      rw [hjq, hq₄] at hj
      cases hj
      rfl
    · have hold : s₄.requests[j]? = s₁.requests[j]? := (Slots.modify_of_ne hjq).trans
        ((Slots.modify_of_ne hjq).trans (Slots.modify_of_ne hjq))
      rcases Slots.append_cases (hold.symm.trans hj) with hold | ⟨hlen, -⟩
      · exact hs.requests y (List.mem_of_getElem? hold)
      · exact (hjq hlen).elim
  · change startWorkflow s.runs row.id = _
    rw [hid]
  · simp [s₄, s₃, s₂, s₁, setPc, arrive]

/-- A report that is stored stays so, with its content. -/
theorem getReport_of_path {ok : System → Action → Prop} {row : Report}
    (hp : machine.Path ok s s') (hrow : s.getReport r = some row) :
    ∃ row', s'.getReport r = some row' ∧ row.SameContent row' := by
  refine hp.invariant (I := fun t => ∃ row', t.getReport r = some row' ∧ row.SameContent row')
    ⟨row, hrow, .refl row⟩ fun _ hold _ hs => ?_
  obtain ⟨row₁, hrow₁, hsame₁⟩ := hold
  obtain ⟨row₂, hrow₂, hsame₂⟩ := (effect_of_step hs).getReport_some hrow₁
  exact ⟨row₂, hrow₂, hsame₁.trans hsame₂⟩

theorem stored_of_path {ok : System → Action → Prop} (hp : machine.Path ok s s')
    (hrow : (s.getReport r).isSome) : (s'.getReport r).isSome := by
  obtain ⟨row, hrow⟩ := Option.isSome_iff_exists.mp hrow
  obtain ⟨row', hrow', -⟩ := getReport_of_path hp hrow
  exact Option.isSome_iff_exists.mpr ⟨row', hrow'⟩

/-- A run that has just been started executes its activities one after the other, up to the
last. -/
theorem exists_rank (h : machine.Reachable s) (hs : s.Halted) (hrow : (s.getReport r).isSome)
    (hρ : s.runs[ρ]? = some (Run.start r)) (n : ℕ) (hn : n ≤ 8) :
    ∃ s' run, machine.Path (Serves r) s s' ∧ s'.Halted ∧ s'.requests = s.requests ∧
      s'.runs = s.runs.set ρ run ∧
      run.reportId = r ∧ run.terminated = false ∧ run.outstanding = none ∧
      run.pc.isFailing = false ∧ run.pc.rank = n := by
  obtain ⟨hlt, hstart⟩ := List.getElem?_eq_some_iff.mp hρ
  induction n with
  | zero =>
    have hset : s.runs = s.runs.set ρ (Run.start r) := by rw [← hstart, List.set_getElem_self]
    exact ⟨s, Run.start r, .refl, hs, rfl, hset, rfl, rfl, rfl, rfl, rfl⟩
  | succ n ih =>
    obtain ⟨s₁, run, hp₁, hs₁, hrequests₁, hruns₁, rfl, hterminated, hout, hfailing, hrank⟩ :=
      ih (by omega)
    have hρ₁ : s₁.runs[ρ]? = some run := by
      rw [hruns₁]
      exact List.getElem?_set_self hlt
    have hopen := Run.isOpen_of_rank hterminated hfailing (by omega)
    obtain ⟨s₂, pc', hp₂, hs₂, ⟨v, hresume⟩, hruns₂, hrequests₂, -⟩ :=
      exists_next (h.path hp₁) hs₁ hρ₁ hopen hout (stored_of_path hp₁ hrow)
    refine ⟨s₂, { run with pc := pc', attempts := 0, outstanding := none },
      hp₁.trans (hp₂.mono fun _ _ hof => .inr hof), hs₂, hrequests₂.trans hrequests₁, ?_, rfl,
      hterminated, rfl,
      (WorkflowPc.isFailing_resume hresume).trans hfailing, ?_⟩
    · rw [hruns₂, hruns₁, List.set_set]
    · rw [← hrank]
      exact WorkflowPc.rank_resume hresume

/-- And then returns, with the report marked. -/
theorem exists_classified (h : machine.Reachable s) (hs : s.Halted)
    (hrow : (s.getReport r).isSome) (hρ : s.runs[ρ]? = some (Run.start r)) :
    ∃ s' run, machine.Path (Serves r) s s' ∧ s'.Halted ∧ s'.requests = s.requests ∧
      s'.runs = s.runs.set ρ run ∧ run.reportId = r ∧ run.isOpen = false ∧
      s'.status r = some ReportStatus.classified.value := by
  have hlt := (List.getElem?_eq_some_iff.mp hρ).1
  obtain ⟨s₁, run, hp₁, hs₁, hrequests₁, hruns₁, rfl, hterminated, hout, hfailing, hrank⟩ :=
    exists_rank h hs hrow hρ 8 le_rfl
  have hρ₁ : s₁.runs[ρ]? = some run := by
    rw [hruns₁]
    exact List.getElem?_set_self hlt
  have hopen := Run.isOpen_of_rank hterminated hfailing (by omega)
  obtain ⟨s₂, pc', hp₂, hs₂, ⟨v, hresume⟩, hruns₂, hrequests₂, hstatus⟩ :=
    exists_next (h.path hp₁) hs₁ hρ₁ hopen hout (stored_of_path hp₁ hrow)
  refine ⟨s₂, { run with pc := pc', attempts := 0, outstanding := none },
    hp₁.trans (hp₂.mono fun _ _ hof => .inr hof), hs₂, hrequests₂.trans hrequests₁, ?_, rfl, ?_,
    ?_⟩
  · rw [hruns₂, hruns₁, List.set_set]
  · have hclosed := (WorkflowPc.isClosed_iff_rank
      ((WorkflowPc.isFailing_resume hresume).trans hfailing)).mpr
      ((WorkflowPc.rank_resume hresume).trans (by rw [hrank]))
    simp [Run.isOpen, hclosed]
  · cases hpc : run.pc <;> rw [hpc] at hrank hstatus <;>
      first | exact hstatus _ _ _ rfl rfl | simp [WorkflowPc.rank] at hrank

/-! ### What the recovery of a report leaves alone -/

theorem others_of_serves {a : Action} (h : machine.Reachable s) (hok : Serves r s a)
    (hs : s.step a = some s') : s'.others r = s.others r := by
  rcases hok with rfl | hof
  · cases hs
    rfl
  · exact others_of_step h (effect_of_step hs) hof

/-- No report is added. -/
theorem ids_of_serves {a : Action} (h : machine.Reachable s) (hok : Serves r s a)
    (hs : s.step a = some s') : s'.reports.map Report.id = s.reports.map Report.id := by
  have he : Effect s a s' := effect_of_step hs
  rcases he.reports with ⟨-, hsame⟩ | ⟨-, q, e, row, raises, rfl, hq, -⟩ |
    ⟨loaded, status, now, -, hcommit⟩
  · rw [hsame]
  · obtain ⟨payload, reportId, key, now, rfl, -⟩ := (coherent_of_reachable h).commit q e row hq
    rcases hok with heq | hof
    · cases heq
    · simp [isOf, Action.request, hq, Endpoint.reprocesses] at hof
  · rw [hcommit, commitStatus, List.map_map]
    exact List.map_congr_left fun row _ => Report.id_writeBack ..

theorem frame_of_serves (h : machine.Reachable s) (hp : machine.Path (Serves r) s s') :
    s'.others r = s.others r ∧ s'.reports.map Report.id = s.reports.map Report.id :=
  hp.invariant (I := fun t => t.others r = s.others r ∧
      t.reports.map Report.id = s.reports.map Report.id) ⟨rfl, rfl⟩ fun ht hI hok hs =>
    ⟨(others_of_serves (h.path ht) hok hs).trans hI.1,
      (ids_of_serves (h.path ht) hok hs).trans hI.2⟩

omit [UnicodeData] in
/-- What is stored of a report is among the others of any other one. -/
theorem view_of_others {r' : String} (h : s'.others r = s.others r) (hne : r' ≠ r) :
    s'.view r' = s.view r' := by
  have hfilter : ∀ {α : Type} (l : List α) (f : α → String),
      (l.filter fun x => f x = r') = (l.filter fun x => f x ≠ r).filter fun x => f x = r' := by
    intro α l f
    rw [List.filter_filter]
    refine List.filter_congr fun x _ => ?_
    by_cases hx : f x = r' <;> simp [hx, hne]
  have hfind : ∀ l : List Report, (l.find? fun row => row.id = r') =
      (l.filter fun row => row.id ≠ r).find? fun row => row.id = r' := by
    intro l
    rw [← List.head?_filter, ← List.head?_filter, hfilter l Report.id]
  simp only [others, Prod.mk.injEq] at h
  obtain ⟨hreports, hclassifications, hitems⟩ := h
  simp only [view, status, getReport]
  rw [hfind s'.reports, hfind s.reports, hreports,
    hfilter s'.upserts.classifications.rows ReportClassification.reportId,
    hfilter s.upserts.classifications.rows ReportClassification.reportId, hclassifications,
    hfilter s'.upserts.queueItems.rows ReviewQueueItem.reportId,
    hfilter s.upserts.queueItems.rows ReviewQueueItem.reportId, hitems]

/-- A classified report is what the rules make of it. -/
theorem view_of_classified (h : machine.Reachable s) {row : Report}
    (hrow : s.getReport r = some row)
    (hst : s.status r = some ReportStatus.classified.value) : s.view r = .clean row.load := by
  have hcausal := causal_of_reachable h
  obtain ⟨⟨c, hc, hcid⟩, i, hi, hiid⟩ := hcausal.classified r hst
  have hcs : (s.upserts.classifications.rows.filter fun c => c.reportId = r) = [c] :=
    Slots.eq_singleton_of_mem (List.mem_filter.mpr ⟨hc, decide_eq_true hcid⟩)
      (hcausal.sound.classifications.length_filter_key_le r)
  have his : (s.upserts.queueItems.rows.filter fun i => i.reportId = r) = [i] :=
    Slots.eq_singleton_of_mem (List.mem_filter.mpr ⟨hi, decide_eq_true hiid⟩)
      (hcausal.sound.queueItems.length_filter_key_le r)
  obtain ⟨report, ⟨row₁, hrow₁, rfl⟩, hresult⟩ := hcausal.classifications.rows c hc
  obtain ⟨⟨t, ⟨report, ⟨row₂, hrow₂, rfl⟩, rfl⟩, hqueue⟩, -, hpending, hassigned⟩ :=
    hcausal.queueItems.rows i hi
  rw [hcid, hrow] at hrow₁
  rw [hiid, hrow] at hrow₂
  cases hrow₁
  cases hrow₂
  simp only [System.view, ReportView.clean, hst, hcs, his, List.map_cons, List.map_nil, hresult,
    hqueue, hpending, hassigned]

/-- A run is one of a stored report. -/
theorem stored_of_run (h : machine.Reachable s) :
    ∀ (ρ : ℕ) (run : Run), s.runs[ρ]? = some run → (s.getReport run.reportId).isSome := by
  refine h.invariant (I := fun s => ∀ (ρ : ℕ) (run : Run), s.runs[ρ]? = some run →
    (s.getReport run.reportId).isSome) ?_ ?_
  · rintro t rfl ρ run hρ
    simp [empty] at hρ
  · intro t a u ht ih hstep ρ run' hρ'
    have he : Effect t a u := effect_of_step hstep
    refine he.isSome_getReport ?_
    cases he.run hρ' with
    | same hρ => exact ih ρ run' hρ
    | started outcome hq => exact ((coherent_of_reachable ht).window _ _ _ _ hq rfl).2
    | @terminated _ _ _ _ run _ _ _ hρ => exact ih ρ run hρ
    | @scheduled run _ hρ => exact ih ρ run hρ
    | @moved a run _ hρ hopen hm => exact hm.reportId ▸ ih ρ run hρ

/-! ### All reports -/

omit [UnicodeData] in
/-- Of the runs there are once a new one has come to its end, those of the report are closed. -/
theorem open_of_replaced {runs : List Run} {new : Run} (hnew : new.isOpen = false)
    (hrun : run ∈ (startWorkflow runs r).set runs.length new) (hopen : run.isOpen = true) :
    run ∈ runs ∧ run.reportId ≠ r := by
  have hset : (startWorkflow runs r).set runs.length new =
      (runs.map fun run => if run.isOpen ∧ Run.workflowId run.reportId = Run.workflowId r then
        { run with terminated := true } else run) ++ [new] := by
    rw [startWorkflow, List.set_append_right _ _ (by simp)]
    simp
  rw [hset, List.mem_append, List.mem_singleton, List.mem_map] at hrun
  rcases hrun with ⟨run₀, hmem, rfl⟩ | rfl
  · split_ifs at hopen ⊢ with hreplaced
    · simp [Run.isOpen] at hopen
    · exact ⟨hmem, fun hid => hreplaced ⟨hopen, by rw [hid]⟩⟩
  · rw [hnew] at hopen
    cases hopen

/-- From rest, one request to reprocess a report takes it to what the rules make of it, and
everything back to rest. -/
theorem recovers_one (h : machine.Reachable s) (hs : s.Halted) {row : Report}
    (hrow : s.getReport r = some row) :
    ∃ s', machine.Path (Serves r) s s' ∧ s'.requests.length = s.requests.length + 1 ∧ s'.Halted ∧
      s'.view r = .clean row.load ∧
      ∀ run ∈ s'.runs, run.isOpen = true → run ∈ s.runs ∧ run.reportId ≠ r := by
  obtain ⟨s₁, hp₁, hs₁, hruns₁, hlength₁⟩ := exists_started hs hrow
  have hρ : s₁.runs[s.runs.length]? = some (Run.start r) := by
    simp [hruns₁, startWorkflow]
  have hstored := stored_of_path hp₁ (Option.isSome_iff_exists.mpr ⟨row, hrow⟩)
  obtain ⟨s₂, run, hp₂, hs₂, hrequests₂, hruns₂, -, hclosed, hstatus⟩ :=
    exists_classified (h.path hp₁) hs₁ hstored hρ
  have hp := hp₁.trans hp₂
  obtain ⟨row', hrow', hsame⟩ := getReport_of_path hp hrow
  refine ⟨s₂, hp, by rw [hrequests₂, hlength₁], hs₂, ?_, fun run' hrun' hopen => ?_⟩
  · rw [← hsame.load]
    exact view_of_classified (h.path hp) hrow' hstatus
  · rw [hruns₂, hruns₁] at hrun'
    exact open_of_replaced hclosed hrun' hopen

/-- One report after the other: what is done for a report stays so. -/
theorem recovers_list (h : machine.Reachable s) (hs : s.Halted) (l : List String) :
    ∃ s', machine.Path (fun _ _ => True) s s' ∧ s'.Halted ∧
      s'.reports.map Report.id = s.reports.map Report.id ∧
      (∀ r ∈ l, ∀ row, s.getReport r = some row → s'.view r = .clean row.load) ∧
      ∀ run ∈ s'.runs, run.isOpen = true → run.reportId ∉ l := by
  induction l with
  | nil => exact ⟨s, .refl, hs, rfl, by simp, by simp⟩
  | cons r l ih =>
    obtain ⟨s₁, hp₁, hs₁, hids₁, hviews₁, hruns₁⟩ := ih
    have h₁ := h.path hp₁
    cases hget : s₁.getReport r with
    | none =>
      have hnone : ∀ row, s.getReport r ≠ some row := by
        intro row hrow
        obtain ⟨row', hrow', -⟩ := getReport_of_path hp₁ hrow
        rw [hget] at hrow'
        cases hrow'
      refine ⟨s₁, hp₁, hs₁, hids₁, ?_, fun run hrun hopen => ?_⟩
      · intro r' hr' row hrow
        rcases List.mem_cons.mp hr' with rfl | hmem
        · exact (hnone row hrow).elim
        · exact hviews₁ r' hmem row hrow
      · obtain ⟨ρ, hρ⟩ := List.getElem?_of_mem hrun
        have hstored := stored_of_run h₁ ρ run hρ
        rw [List.mem_cons, not_or]
        refine ⟨?_, hruns₁ run hrun hopen⟩
        rintro rfl
        rw [hget] at hstored
        cases hstored
    | some row₁ =>
      obtain ⟨s₂, hp₂, -, hs₂, hview, hruns₂⟩ := recovers_one h₁ hs₁ hget
      obtain ⟨hothers, hids₂⟩ := frame_of_serves h₁ hp₂
      refine ⟨s₂, hp₁.trans (hp₂.mono fun _ _ _ => trivial), hs₂, hids₂.trans hids₁, ?_,
        fun run hrun hopen => ?_⟩
      · intro r' hr' row hrow
        by_cases heq : r' = r
        · subst heq
          obtain ⟨row', hrow', hsame⟩ := getReport_of_path hp₁ hrow
          rw [hget] at hrow'
          cases hrow'
          rw [hview, hsame.load]
        · rw [view_of_others hothers heq]
          exact hviews₁ r' ((List.mem_cons.mp hr').resolve_left heq) row hrow
      · obtain ⟨hold, hne⟩ := hruns₂ run hrun hopen
        rw [List.mem_cons, not_or]
        exact ⟨hne, hruns₁ run hold hopen⟩

/-- **No reachable state is a dead end.** Whatever requests, runs, attempts and transactions are
under way, and however the ones before have ended: all processes can go away, which changes
nothing that is stored; from there, for any stored report, one request to reprocess it and what
follows from it take the report to the status `classified` with one classification and one
pending queue item, those of the rules on its content, and touch no other report; and so all
stored reports can be taken there, with no report added, no run left open, no attempt executing
and no request unanswered. -/
theorem recovers (h : machine.Reachable s) :
    (∃ s₁, machine.Path Halts s s₁ ∧ s₁.Halted ∧ SameStores s s₁ ∧
      ∀ r row, s.getReport r = some row → ∃ s₂, machine.Path (Serves r) s₁ s₂ ∧
        s₂.requests.length = s₁.requests.length + 1 ∧ s₂.Halted ∧ s₂.view r = .clean row.load ∧
        s₂.others r = s.others r) ∧
    ∃ s₃, machine.Path (fun _ _ => True) s s₃ ∧ s₃.Halted ∧
      (∀ run ∈ s₃.runs, run.isOpen = false) ∧
      s₃.reports.map Report.id = s.reports.map Report.id ∧
      ∀ r row, s.getReport r = some row → s₃.view r = .clean row.load := by
  obtain ⟨s₁, hp₁, hs₁, hsame⟩ := exists_halted h
  have h₁ := h.path hp₁
  have hget : ∀ r, s₁.getReport r = s.getReport r := fun r => by
    rw [getReport, getReport, hsame.reports]
  refine ⟨⟨s₁, hp₁, hs₁, hsame, fun r row hrow => ?_⟩, ?_⟩
  · obtain ⟨s₂, hp₂, hlength, hs₂, hview, -⟩ := recovers_one h₁ hs₁ ((hget r).trans hrow)
    refine ⟨s₂, hp₂, hlength, hs₂, hview, (frame_of_serves h₁ hp₂).1.trans ?_⟩
    simp only [others, hsame.reports, hsame.classifications, hsame.queueItems]
  · obtain ⟨s₃, hp₃, hs₃, hids, hviews, hruns⟩ :=
      recovers_list h₁ hs₁ (s₁.reports.map Report.id)
    have hpath := (hp₁.mono fun _ _ _ => trivial).trans hp₃
    refine ⟨s₃, hpath, hs₃, fun run hrun => ?_, by rw [hids, hsame.reports], ?_⟩
    · by_contra hopen
      obtain ⟨ρ, hρ⟩ := List.getElem?_of_mem hrun
      obtain ⟨row, hrow, hid⟩ := isSome_getReport.mp (stored_of_run (h.path hpath) ρ run hρ)
      refine hruns run hrun (Bool.eq_true_of_not_eq_false hopen) ?_
      rw [← hids]
      exact List.mem_map.mpr ⟨row, hrow, hid⟩
    · intro r row hrow
      obtain ⟨hmem, hid⟩ := getReport_eq_some ((hget r).trans hrow)
      exact hviews r (List.mem_map.mpr ⟨row, hmem, hid⟩) row ((hget r).trans hrow)

end

/-- A report whose classification is flushed and not committed, in an attempt the run has given
up. -/
def flushedAndGivenUp : List Action :=
  Sample.create 0 "r" ++ Sample.activity 0 0 1 ++ Sample.activity 0 1 2 ++ Sample.activity 0 2 1 ++
    Sample.activity 0 3 1 ++ Sample.activity 0 4 1 ++
    [.schedule 0, .exec 5 (Sample.input 2), .exec 5 (Sample.input 2), .exec 5 (Sample.input 2),
      .timeout 0, .schedule 0]

/-- It can still be classified. -/
theorem recovers_flushedAndGivenUp : ∃ (_ : UnicodeData) (s s₃ : System) (row : Report),
    machine.Path (fun _ _ => True) s s₃ ∧ s.getReport "r" = some row ∧
    row.status = ReportStatus.processing.value ∧
    s.upserts.ended 0 (.classification ⟨"r", "", "", false, 0, "", ""⟩) = none ∧
    s₃.view "r" = .clean row.load := by
  let _ := asciiUnicode
  have hrun : ((machine.run empty flushedAndGivenUp).any fun s =>
      (s.getReport "r").any (fun row => row.status = ReportStatus.processing.value) &&
        s.upserts.ended 0 (.classification ⟨"r", "", "", false, 0, "", ""⟩) = none) = true := by
    decide +kernel
  obtain ⟨s, hs, hp⟩ := Machine.Along.exists_of_runIf rfl hrun
  simp only [Bool.and_eq_true, decide_eq_true_eq] at hp
  obtain ⟨row, hrow, hst⟩ := (Option.any_eq_true _ _).mp hp.1
  obtain ⟨s₃, hp₃, -, -, -, hviews⟩ := (recovers hs).2
  exact ⟨_, s, s₃, row, hp₃, hrow, of_decide_eq_true hst, hp.2, hviews "r" row hrow⟩

end System

end ReportTriage

import ReportTriage.StartWindow

/-!
# The order of statuses

A report that is created and never reprocessed goes from `queued` to `processing` and on to
`classified` or `failed`, as long as the attempts that mark it commit in the order they were
scheduled in. The write of a mark does not look at the stored status, so an attempt that commits
late takes a report out of its final status.

## Main definitions

* `ReportStatus.Next` — the transitions of a status.
* `System.oneRun`, `System.marksInOrder` — the runs considered, and the steps among them that
  do not go wrong.
* `System.InOrder` — the invariant: every status loaded or written comes before the stored one.
* `System.status_order` — the order, along a run.
* `System.left_failed` — an attempt that commits late.
-/

namespace ReportTriage

open Relation (ReflTransGen)

namespace ReportStatus

/-- The transitions of a status. A run whose first two activities fail never gets to
`processing`. -/
inductive Next : ReportStatus → ReportStatus → Prop
  | begin : Next queued processing
  | classify : Next processing classified
  | fail : Next processing failed
  | failEarly : Next queued failed

def isFinal : ReportStatus → Bool
  | classified | failed => true
  | _ => false

variable {st st' : ReportStatus}

theorem eq_of_isFinal (h : ReflTransGen Next st st') (hfinal : st.isFinal = true) : st' = st := by
  rcases h.cases_head with heq | ⟨mid, hnext, -⟩
  · exact heq.symm
  · cases hnext <;> cases hfinal

/-- Only the first status of a path may be `queued`, or no status of `Next` at all. -/
theorem of_reflTransGen (h : ReflTransGen Next st st') :
    st' = st ∨ st' = processing ∨ st'.isFinal = true := by
  rcases h.cases_tail with heq | ⟨mid, -, hnext⟩
  · exact .inl heq
  · cases hnext <;> simp [isFinal]

end ReportStatus

/-- The run has seen `mark_report_processing_activity` succeed. -/
def WorkflowPc.isPastProcessing : WorkflowPc → Bool
  | classify _ | scorePriority _ _ | decideReview _ _ | persist _ _ _ | route _ _ _ _
  | publish _ _ _ _ | markClassified _ _ _ _ | returned _ => true
  | _ => false

theorem WorkflowPc.isPastProcessing_of_resume {r : String} {pc pc' : WorkflowPc} {v : Value}
    (h : pc.resume r v = some pc') (hpast : pc'.isPastProcessing = true) :
    pc.isPastProcessing = true ∨ ∃ report, pc = .markProcessing report := by
  cases pc with
  | load =>
    cases v with
    | report => cases h; cases hpast
    | _ => cases h
  | markProcessing report => exact .inr ⟨report, rfl⟩
  | markFailed =>
    cases v with
    | null => cases h; cases hpast
    | _ => cases h
  | raised | markFailedRaised => cases v <;> cases h
  | _ => exact .inl rfl

theorem Run.isPastProcessing_of_attemptFailed {run : Run} {e : Failure}
    (h : (run.attemptFailed e).pc.isPastProcessing = true) :
    run.pc.isPastProcessing = true := by
  unfold attemptFailed at h
  split at h
  · exact h
  · split at h
    · exact h
    · cases hpc : run.pc <;> rw [hpc] at h <;> first | rfl | cases h

namespace System

/-- The statuses activities have committed for the report, latest first. -/
def marks (s : System) (r : String) : List ReportStatus :=
  s.history.filterMap fun
    | .statusCommitted (.attempt _) r' status _ => if r' = r then some status else none
    | _ => none

theorem mem_marks {s : System} {r : String} {st : ReportStatus} :
    st ∈ s.marks r ↔ ∃ i stored, .statusCommitted (.attempt i) r st stored ∈ s.history := by
  simp only [marks, List.mem_filterMap]
  constructor
  · rintro ⟨ev, hev, h⟩
    split at h
    · split_ifs at h with hid
      cases h
      exact ⟨_, _, hid ▸ hev⟩
    · cases h
  · rintro ⟨i, stored, hev⟩
    exact ⟨_, hev, if_pos rfl⟩

theorem mem_marks_of_commit {s : System} {i : ℕ} {loaded : Report} {status : ReportStatus}
    {reports : List Report} {history : List Event}
    (h : s.history = .ofCommit (.attempt i) loaded status reports :: history) :
    status ∈ s.marks loaded.id :=
  mem_marks.mpr ⟨i, _, h ▸ List.mem_cons_self⟩

/-- The report is not reprocessed, and a start of it is accepted. -/
def oneRun (r : String) (s : System) : Action → Bool
  | .arrive (.reprocess r') => r' ≠ r
  | .start q outcome => match s.requests[q]? with
    | some ⟨_, .start reportId _⟩ => reportId ≠ r || outcome = .accepted
    | _ => true
  | _ => true

/-- Once an activity has committed `classified` or `failed` for the report, a write of its
status is of the same status, or of the status it has loaded. -/
def marksInOrder (r : String) (s : System) (a : Action) : Bool :=
  match s.statusWrite a with
  | some (loaded, status) => loaded.id ≠ r || loaded.status = status.value ||
      (s.marks r).all fun st => !st.isFinal || st = status
  | none => true

/-- What a step may do to the stored status of a report. -/
inductive StatusMove (s s' : System) (r : String) : Prop
  | same (h : s'.status r = s.status r)
  | created (h : s.status r = none) (h' : s'.status r = some ReportStatus.queued.value)
  | next {st st' : ReportStatus} (h : s.status r = some st.value)
      (h' : s'.status r = some st'.value) (hnext : st.Next st')

/-- The stored status is this one, or comes after it. -/
def HasBeen (s : System) (r : String) (st : ReportStatus) : Prop :=
  ∃ st', s.status r = some st'.value ∧ ReflTransGen ReportStatus.Next st st'

/-- The invariant of a report that is processed once. -/
structure InOrder (r : String) (s : System) : Prop where
  noReprocess : ∀ (q : ℕ) (e : Endpoint) (pc : RequestPc), s.requests[q]? = some ⟨e, pc⟩ →
    e ≠ .reprocess r
  notFailing : s.startFailing r = false
  stored : ∀ v, s.status r = some v → s.HasBeen r .queued
  loaded : ∀ (i : ℕ) (x : Attempt) (row : Report), s.attempts[i]? = some x →
    x.phase = .loaded row → row.id = r → ∃ st : ReportStatus, row.status = st.value ∧ s.HasBeen r st
  marks : ∀ st ∈ s.marks r, s.HasBeen r st
  final : ∀ st : ReportStatus, st.isFinal = true → s.status r = some st.value → st ∈ s.marks r
  begun : ∀ (ρ : ℕ) (run : Run), s.runs[ρ]? = some run → run.reportId = r →
    run.pc.isPastProcessing = true → .processing ∈ s.marks r
  begins : ∀ (i : ℕ) (x : Attempt) (v : Value), s.attempts[i]? = some x →
    x.activity = .markReportProcessing r → x.phase = .finished (.ok v) → .processing ∈ s.marks r
  completes : ∀ (i : ℕ) (x : Attempt), s.attempts[i]? = some x →
    x.activity = .markReportClassified r → .processing ∈ s.marks r

theorem inOrder_empty (r : String) : InOrder r empty := by
  constructor <;> simp [empty, startFailing, System.status, getReport, marks]

variable {s s' : System} {a : Action} {r : String}

theorem HasBeen.move {st : ReportStatus} (h : s.HasBeen r st) (hm : StatusMove s s' r) :
    s'.HasBeen r st := by
  obtain ⟨st', hstored, hpath⟩ := h
  cases hm with
  | same hsame => exact ⟨st', hsame ▸ hstored, hpath⟩
  | created hnone =>
    rw [hstored] at hnone
    cases hnone
  | next hold hnew hnext =>
    rw [hstored, Option.some.injEq, ReportStatus.value_inj] at hold
    exact ⟨_, hnew, (hold ▸ hpath).tail hnext⟩

section
variable [UnicodeData]

theorem Effect.marks_kept (he : Effect s a s') {st : ReportStatus} (h : st ∈ s.marks r) :
    st ∈ s'.marks r := by
  obtain ⟨i, stored, hev⟩ := mem_marks.mp h
  exact mem_marks.mpr ⟨i, stored, he.event_kept hev⟩

/-! ### One step -/

/-- The only writes are those of activities. -/
theorem InOrder.write (h : InOrder r s) (hco : Coherent s) (he : Effect s a s') :
    s'.status r = s.status r ∨
    (s.status r = none ∧ s'.status r = some ReportStatus.queued.value) ∨
    ∃ i x input loaded status, a = .exec i input ∧ s.attempts[i]? = some x ∧
      x.phase = .loaded loaded ∧ loaded.id = r ∧ x.activity.statusWrite = some (r, status) ∧
      loaded.status ≠ status.value ∧ s'.status r = some status.value ∧ status ∈ s'.marks r := by
  rcases he.status r with hsame | ⟨q, e, row, raises, -, hq, -, hnone, hnew⟩ |
    ⟨loaded, status, hw, rfl, hcolumn⟩
  · exact .inl hsame
  · obtain ⟨payload, reportId, key, now, -, rfl⟩ := hco.commit q e row hq
    exact .inr (.inl ⟨hnone, hnew⟩)
  · rcases statusWrite_eq_some hw with ⟨q, e, now, raises, -, hq, -⟩ |
      ⟨q, e, now, cause, -, hq, -⟩ | ⟨i, x, input, r, rfl, hx, hp, hwrite⟩
    · exact (h.noReprocess q e _ hq (hco.reset q e loaded hq).1).elim
    · have hfailing := startFailing_iff.mpr ⟨q, e, _, cause, hq, rfl⟩
      rw [h.notFailing] at hfailing
      cases hfailing
    · obtain rfl := hco.loaded_id hx hp hwrite
      by_cases hdirty : loaded.status = status.value
      · exact .inl (he.status_of_clean hw hdirty)
      · obtain ⟨result, -, -, -, hcons⟩ := he.of_mark hx hp hwrite
        exact .inr (.inr ⟨i, x, input, loaded, status, rfl, hx, hp, rfl, hwrite, hdirty,
          he.status_of_dirty hco hw hdirty, mem_marks_of_commit hcons⟩)

/-- **One step** of the status. -/
theorem InOrder.move (h : InOrder r s) (hco : Coherent s) (he : Effect s a s')
    (hok : s.marksInOrder r a = true) : StatusMove s s' r := by
  rcases h.write hco he with hsame | ⟨hnone, hnew⟩ |
    ⟨i, x, input, loaded, status, rfl, hx, hp, rfl, hwrite, hdirty, hnew, -⟩
  · exact .same hsame
  · exact .created hnone hnew
  · obtain ⟨-, -, st, hstored, -⟩ := h.loaded i x loaded hx hp rfl
    obtain ⟨st', hstored', hpath⟩ := h.stored _ hstored
    rw [hstored, Option.some.injEq, ReportStatus.value_inj] at hstored'
    subst hstored'
    have hmarks : ∀ st' ∈ s.marks loaded.id, st'.isFinal = false ∨ st' = status := by
      have hw : s.statusWrite (.exec i input) = some (loaded, status) :=
        statusWrite_exec_loaded hx hp hwrite
      simpa [marksInOrder, hw, hdirty] using hok
    -- A stored final status is a committed one, and only it may be written again.
    by_cases hfinal : st.isFinal = true
    · rcases hmarks st (h.final st hfinal hstored) with hnot | rfl
      · rw [hfinal] at hnot
        cases hnot
      · exact .same (hnew.trans hstored.symm)
    · have hst : st = .queued ∨ st = .processing :=
        (ReportStatus.of_reflTransGen hpath).imp_right fun h => h.resolve_right hfinal
      obtain ⟨ρ, activity, phase⟩ := x
      cases activity <;> cases hwrite
      · rcases hst with rfl | rfl
        · exact .next hstored hnew .begin
        · exact .same (hnew.trans hstored.symm)
      · -- A run that marks a report classified has marked it as in processing.
        obtain ⟨st', hstored', hbegun⟩ := h.marks _ (h.completes i _ hx rfl)
        rw [hstored, Option.some.injEq, ReportStatus.value_inj] at hstored'
        subst hstored'
        rcases hst with rfl | rfl
        · rcases ReportStatus.of_reflTransGen hbegun with h | h | h <;> cases h
        · exact .next hstored hnew .classify
      · rcases hst with rfl | rfl
        · exact .next hstored hnew .failEarly
        · exact .next hstored hnew .fail

theorem InOrder.noReprocess_step (h : InOrder r s) (he : Effect s a s')
    (hok : s.oneRun r a = true) {q : ℕ} {e : Endpoint} {pc' : RequestPc}
    (hq' : s'.requests[q]? = some ⟨e, pc'⟩) : e ≠ .reprocess r := by
  rcases he.request hq' with hold | ⟨rfl, -, -⟩ | ⟨pc, hold, -⟩
  · exact h.noReprocess q e _ hold
  · rintro rfl
    simp [oneRun] at hok
  · exact h.noReprocess q e _ hold

theorem InOrder.notFailing_step (h : InOrder r s) (hco : Coherent s) (he : Effect s a s')
    (hok : s.oneRun r a = true) : s'.startFailing r = false := by
  by_contra hfails
  rcases he.startFailing hco (Bool.eq_true_of_not_eq_false hfails) with
    hold | ⟨q, e, held, outcome, rfl, hq, hne⟩
  · rw [h.notFailing] at hold
    cases hold
  · simp [oneRun, hq, hne] at hok

theorem InOrder.loaded_step (h : InOrder r s) (he : Effect s a s') (hmove : StatusMove s s' r)
    {i : ℕ} {y : Attempt} {row : Report} (hy : s'.attempts[i]? = some y)
    (hp : y.phase = .loaded row) (hid : row.id = r) :
    ∃ st : ReportStatus, row.status = st.value ∧ s'.HasBeen r st := by
  rcases he.attempt hy with hold | ⟨-, ρ, run, call, -, -, -, -, rfl⟩ | ⟨x, p, hx, rfl, hstep⟩
  · exact (h.loaded i y row hold hp hid).imp fun _ => .imp_right fun hbeen => hbeen.move hmove
  · cases hp
  · obtain rfl : p = .loaded row := hp
    obtain ⟨-, -, -, hget⟩ := hstep.to_loaded
    rw [hid] at hget
    have hstored : s.status r = some row.status := by rw [System.status, hget]; rfl
    obtain ⟨st, hst, -⟩ := h.stored _ hstored
    rw [hstored, Option.some.injEq] at hst
    exact ⟨st, hst, HasBeen.move ⟨st, hstored.trans (congrArg some hst), .refl⟩ hmove⟩

omit [UnicodeData] in
/-- What a write leaves stored is the status written, or one that comes after it. -/
theorem InOrder.hasBeen_written (h : InOrder r s) {i : ℕ} {x : Attempt} {loaded : Report}
    {status : ReportStatus} (hx : s.attempts[i]? = some x) (hp : x.phase = .loaded loaded)
    (hid : loaded.id = r)
    (hcolumn : s'.status r = (s.status r).map (WriteBack.column loaded.status status.value)) :
    s'.HasBeen r status := by
  obtain ⟨st, hst, st', hstored, hpath⟩ := h.loaded i x loaded hx hp hid
  rw [hstored, Option.map_some] at hcolumn
  by_cases hdirty : loaded.status = status.value
  · obtain rfl : st = status := ReportStatus.value_inj.mp (hst.symm.trans hdirty)
    rw [hdirty, WriteBack.column_self] at hcolumn
    exact ⟨st', hcolumn, hpath⟩
  · rw [WriteBack.column_of_ne (Ne.symm hdirty)] at hcolumn
    exact ⟨status, hcolumn, .refl⟩

theorem InOrder.marks_step (h : InOrder r s) (hco : Coherent s) (he : Effect s a s')
    (hmove : StatusMove s s' r) {st : ReportStatus} (hst : st ∈ s'.marks r) :
    s'.HasBeen r st := by
  obtain ⟨i, stored, hev⟩ := mem_marks.mp hst
  rcases he.event hev with hold | hlogged
  · exact (h.marks st (mem_marks.mpr ⟨i, stored, hold⟩)).move hmove
  · cases hlogged with
    | marked hx hp hwrite =>
      obtain rfl := hco.loaded_id hx hp hwrite
      refine h.hasBeen_written hx hp rfl ?_
      exact he.status_of_statusWrite (statusWrite_exec_loaded hx hp hwrite)

theorem InOrder.final_step (h : InOrder r s) (hco : Coherent s) (he : Effect s a s')
    {st : ReportStatus} (hfinal : st.isFinal = true) (hst : s'.status r = some st.value) :
    st ∈ s'.marks r := by
  rcases h.write hco he with hsame | ⟨-, hnew⟩ |
    ⟨i, x, input, loaded, status, -, -, -, -, -, -, hnew, hmark⟩
  · exact he.marks_kept (h.final st hfinal (hsame ▸ hst))
  · rw [hst, Option.some.injEq, ReportStatus.value_inj] at hnew
    rw [hnew] at hfinal
    cases hfinal
  · rw [hst, Option.some.injEq, ReportStatus.value_inj] at hnew
    exact hnew ▸ hmark

theorem InOrder.begun_step (h : InOrder r s) (hco : Coherent s) (he : Effect s a s') {ρ : ℕ}
    {run' : Run} (hρ' : s'.runs[ρ]? = some run') (hid : run'.reportId = r)
    (hpast : run'.pc.isPastProcessing = true) : .processing ∈ s'.marks r := by
  refine he.marks_kept ?_
  cases he.run hρ' with
  | same hρ => exact h.begun ρ run' hρ hid hpast
  | started => cases hpast
  | @terminated _ _ _ _ run _ _ _ hρ => exact h.begun ρ run hρ hid hpast
  | @scheduled run _ hρ => exact h.begun ρ run hρ hid hpast
  | @moved a run _ hρ hopen hm =>
    rw [hm.reportId] at hid
    cases hm with
    | @succeeded i x v _ hout hx hp hrun =>
      obtain ⟨pc', hresume, rfl⟩ := Option.map_eq_some_iff.mp hrun
      rcases WorkflowPc.isPastProcessing_of_resume hresume hpast with hpast | ⟨report, hpc⟩
      · exact h.begun ρ run hρ hid hpast
      · obtain ⟨⟨y, call, hy, -, hcall, hact⟩, -⟩ := hco.outstanding ρ run i hρ hout
        rw [hx] at hy
        cases hy
        rw [hpc] at hcall
        cases hcall
        exact h.begins i x v hx (hid ▸ hact) hp
    | failed | timedOut =>
      exact h.begun ρ run hρ hid (Run.isPastProcessing_of_attemptFailed hpast)

theorem InOrder.begins_step (h : InOrder r s) (hco : Coherent s) (he : Effect s a s') {i : ℕ}
    {y : Attempt} {v : Value} (hy : s'.attempts[i]? = some y)
    (hact : y.activity = .markReportProcessing r) (hp : y.phase = .finished (.ok v)) :
    .processing ∈ s'.marks r := by
  rcases he.attempt hy with hold | ⟨-, ρ, run, call, -, -, -, -, rfl⟩ | ⟨x, p, hx, rfl, hstep⟩
  · exact he.marks_kept (h.begins i y v hold hact hp)
  · cases hp
  · obtain rfl : p = .finished (.ok v) := hp
    obtain ⟨input, loaded, -, hp, -, hcons⟩ := hstep.to_marked (by rw [hact]; rfl)
    obtain rfl : loaded.id = r := hco.loaded_id hx hp (by rw [hact]; rfl)
    exact mem_marks_of_commit hcons

theorem InOrder.completes_step (h : InOrder r s) (he : Effect s a s') {i : ℕ} {y : Attempt}
    (hy : s'.attempts[i]? = some y) (hact : y.activity = .markReportClassified r) :
    .processing ∈ s'.marks r := by
  refine he.marks_kept ?_
  rcases he.attempt hy with hold | ⟨-, ρ, run, call, -, hρ, -, hcall, rfl⟩ | ⟨x, p, hx, rfl, -⟩
  · exact h.completes i y hold hact
  · obtain ⟨hpast, hid⟩ : run.pc.isPastProcessing = true ∧ run.reportId = r := by
      cases hpc : run.pc <;> rw [hpc] at hcall <;> cases hcall <;> cases hact
      exact ⟨rfl, rfl⟩
    exact h.begun ρ run hρ hid hpast
  · exact h.completes i x hx hact

theorem InOrder.step (h : InOrder r s) (hco : Coherent s) (he : Effect s a s')
    (hone : s.oneRun r a = true) (hok : s.marksInOrder r a = true) : InOrder r s' :=
  have hmove := h.move hco he hok
  { noReprocess := fun _ _ _ hq => h.noReprocess_step he hone hq
    notFailing := h.notFailing_step hco he hone
    stored := fun v hv => by
      cases hmove with
      | same hsame => exact (h.stored v (hsame ▸ hv)).move (.same hsame)
      | created hnone hnew => exact ⟨_, hnew, .refl⟩
      | next hold hnew hnext => exact (h.stored _ hold).move (.next hold hnew hnext)
    loaded := fun _ _ _ hx hp hid => h.loaded_step he hmove hx hp hid
    marks := fun _ hst => h.marks_step hco he hmove hst
    final := fun _ hfinal hst => h.final_step hco he hfinal hst
    begun := fun _ _ hρ hid hpast => h.begun_step hco he hρ hid hpast
    begins := fun _ _ _ hx hact hp => h.begins_step hco he hx hact hp
    completes := fun _ _ hx hact => h.completes_step he hx hact }

theorem inOrder_of_along
    (h : machine.Along (fun s a => s.oneRun r a && s.marksInOrder r a) s) : InOrder r s := by
  refine h.invariant (fun h0 => h0 ▸ inOrder_empty r) fun ht ih hok hstep => ?_
  rw [Bool.and_eq_true] at hok
  exact ih.step (coherent_of_reachable ht.reachable) (effect_of_step hstep) hok.1 hok.2

/-- A write out of order leaves the final status that was committed. -/
theorem InOrder.marksInOrder_of_move (h : InOrder r s) (he : Effect s a s')
    (hmove : StatusMove s s' r) : s.marksInOrder r a = true := by
  unfold marksInOrder
  split
  · rename_i loaded status hw
    by_contra hout
    simp only [ne_eq, Bool.or_eq_true, decide_eq_true_eq, List.all_eq_true, Bool.not_eq_true',
      not_or, not_not, not_forall] at hout
    obtain ⟨⟨rfl, hdirty⟩, st, hst, hfinal, hne⟩ := hout
    rw [Bool.not_eq_false] at hfinal
    obtain ⟨st', hstored, hpath⟩ := h.marks st hst
    obtain rfl := ReportStatus.eq_of_isFinal hpath hfinal
    have hnew := he.status_of_statusWrite hw
    rw [hstored, Option.map_some, WriteBack.column_of_ne (Ne.symm hdirty)] at hnew
    cases hmove with
    | same hsame =>
      rw [hnew, hstored, Option.some.injEq, ReportStatus.value_inj] at hsame
      exact hne hsame.symm
    | created hnone =>
      rw [hstored] at hnone
      cases hnone
    | next hold _ hnext =>
      rw [hstored, Option.some.injEq, ReportStatus.value_inj] at hold
      subst hold
      cases hnext <;> cases hfinal
  · rfl

/-- **The order of statuses.** In a run in which report `r` is created and never reprocessed,
and every write of its status once an activity has committed a final one is of that status (or
leaves the column out): the next step keeps to the order if and only if it is such a write too;
and what is stored later comes after what is stored now, so a final status stays. -/
theorem status_order
    (hs : machine.Along (fun s a => s.oneRun r a && s.marksInOrder r a) s) :
    (∀ (a : Action) (s' : System), s.oneRun r a = true → machine.step s a = some s' →
      (StatusMove s s' r ↔ s.marksInOrder r a = true)) ∧
    ∀ (v : String) (t : System), s.status r = some v →
      machine.Path (fun s a => s.oneRun r a && s.marksInOrder r a) s t →
      ∃ st : ReportStatus, v = st.value ∧ t.HasBeen r st ∧
        (st.isFinal = true → t.status r = some st.value) := by
  have hmove : ∀ {t : System} {a : Action} {u : System},
      machine.Along (fun s a => s.oneRun r a && s.marksInOrder r a) t →
      t.marksInOrder r a = true → machine.step t a = some u → StatusMove t u r :=
    fun ht hok hstep =>
      (inOrder_of_along ht).move (coherent_of_reachable ht.reachable) (effect_of_step hstep) hok
  refine ⟨fun a s' hone hstep => ⟨fun h => ?_, fun hok => hmove hs hok hstep⟩, fun v t hv hp => ?_⟩
  · exact (inOrder_of_along hs).marksInOrder_of_move (effect_of_step hstep) h
  obtain ⟨st, hst, -⟩ := (inOrder_of_along hs).stored v hv
  have hbeen : t.HasBeen r st := hp.invariant (I := fun t => t.HasBeen r st) ⟨st, hst, .refl⟩
    fun hp' ih hok hstep => ih.move (hmove (hs.path hp') ((Bool.and_eq_true ..).mp hok).2 hstep)
  refine ⟨st, Option.some.inj (hv.symm.trans hst), hbeen, ?_⟩
  intro hfinal
  obtain ⟨st', hst', hpath⟩ := hbeen
  rwa [ReportStatus.eq_of_isFinal hpath hfinal] at hst'

end

/-- A clean run leaves the report classified, for good. -/
theorem status_order_cleanRun : ∃ (_ : UnicodeData) (s : System),
    machine.Along (fun s a => s.oneRun "r" a && s.marksInOrder "r" a) s ∧
    ∀ t, machine.Path (fun s a => s.oneRun "r" a && s.marksInOrder "r" a) s t →
      t.status "r" = some ReportStatus.classified.value := by
  let _ := asciiUnicode
  have hrun : ((machine.runIf (fun s a => s.oneRun "r" a && s.marksInOrder "r" a) empty
      (Sample.create 0 "r" ++ Sample.cleanRun 0 0)).any fun s =>
      s.status "r" = some ReportStatus.classified.value) = true := by decide +kernel
  obtain ⟨s, hs, hp⟩ := Machine.Along.exists_of_runIf rfl hrun
  simp only [decide_eq_true_eq] at hp
  refine ⟨_, s, hs, ?_⟩
  intro t ht
  obtain ⟨st, hst, -, hfinal⟩ := (status_order hs).2 _ t hp ht
  rw [ReportStatus.value_inj] at hst
  subst hst
  exact hfinal rfl

/-- The first attempt of `mark_report_processing_activity` loads the row and goes on after its
timeout; the two others never get a worker, and the run marks the report failed. -/
def lateMark : List Action :=
  Sample.create 0 "r" ++ Sample.activity 0 0 1 ++
    [.schedule 0, .exec 1 (Sample.input 2), .timeout 0, .schedule 0, .timeout 0, .schedule 0,
      .timeout 0] ++ Sample.activity 0 4 2

/-- A report can leave `failed`: the late attempt commits `processing`. -/
theorem left_failed : ¬ ∀ (_ : UnicodeData) (s s' : System) (a : Action) (r : String),
    machine.Along (fun s a => s.oneRun r a = true) s → s.oneRun r a = true →
    machine.step s a = some s' → StatusMove s s' r := by
  intro h
  let _ := asciiUnicode
  have hrun : ((machine.runIf (fun s a => s.oneRun "r" a = true) empty lateMark).any fun s =>
      (machine.step s (.exec 1 (Sample.input 3))).any fun s' =>
        s.status "r" = some ReportStatus.failed.value &&
          s'.status "r" = some ReportStatus.processing.value) = true := by decide +kernel
  obtain ⟨s, s', hs, hstep, hp⟩ := Machine.Along.exists_step_of_runIf rfl hrun
  simp only [Bool.and_eq_true, decide_eq_true_eq] at hp
  cases h _ s s' _ "r" hs rfl hstep with
  | same hsame =>
    rw [hp.1, hp.2, Option.some.injEq, ReportStatus.value_inj] at hsame
    cases hsame
  | created hnone =>
    rw [hp.1] at hnone
    cases hnone
  | next hold hnew hnext =>
    rw [hp.1, Option.some.injEq, ReportStatus.value_inj] at hold
    subst hold
    cases hnext

end System

end ReportTriage

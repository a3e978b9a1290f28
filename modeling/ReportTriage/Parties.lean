import ReportTriage.Effects

/-!
# A step, seen by one party

A step touches at most one row of `reports`, one request, one attempt, and one run — save
that starting a run terminates the one before. The lemmas here turn `Effect` around: given a
row or a party after the step, what it was before and how it got there; and given one before,
that it is still there.

## Main definitions

* `Report.SameContent` — two versions of one row of `reports`.
* `System.status` — the stored status of a report.
* `System.statusWrite` — the status write an action commits, if it commits one.
-/

namespace ReportTriage

open WriteBack (column)

/-! ## Rows of `reports` -/

/-- Only the status and its stamp may differ. -/
def Report.SameContent (r r' : Report) : Prop :=
  r' = { r with status := r'.status, updatedAt := r'.updatedAt }

namespace Report
variable {r r' r'' : Report}

theorem SameContent.refl (r : Report) : r.SameContent r := rfl

theorem SameContent.trans (h : r.SameContent r') (h' : r'.SameContent r'') :
    r.SameContent r'' := by
  rw [SameContent] at *
  rw [h', h]

theorem SameContent.id (h : r.SameContent r') : r'.id = r.id := by rw [h]

theorem SameContent.idempotencyKey (h : r.SameContent r') :
    r'.idempotencyKey = r.idempotencyKey := by rw [h]

theorem SameContent.load (h : r.SameContent r') : r'.load = r.load := by rw [h]; rfl

theorem Collides.symm (h : r.Collides r') : r'.Collides r := by
  rcases h with h | ⟨hsome, h⟩
  · exact .inl h.symm
  · exact .inr ⟨h ▸ hsome, h.symm⟩

/-- Whether two rows collide is a matter of their content. -/
theorem SameContent.collides {t t' : Report} (h : r.SameContent r') (ht : t.SameContent t') :
    r'.Collides t' ↔ r.Collides t := by
  simp only [Collides, h.id, ht.id, h.idempotencyKey, ht.idempotencyKey]

theorem sameContent_writeBack (loaded : Report) (status : ReportStatus) (now : Time) (r : Report) :
    r.SameContent (loaded.writeBack status now r) := by
  unfold writeBack
  split <;> rfl

@[simp] theorem id_writeBack (loaded : Report) (status : ReportStatus) (now : Time) (r : Report) :
    (loaded.writeBack status now r).id = r.id :=
  (sameContent_writeBack loaded status now r).id

theorem status_writeBack (loaded : Report) (status : ReportStatus) (now : Time) (r : Report) :
    (loaded.writeBack status now r).status =
      if r.id = loaded.id then column loaded.status status.value r.status else r.status := by
  unfold writeBack
  split <;> rfl

end Report

namespace System

/-- The stored status of a report. -/
def status (s : System) (reportId : String) : Option String :=
  (s.getReport reportId).map Report.status

/-- The instance whose assignment action `a` commits, and the status assigned to it. -/
def statusWrite (s : System) : Action → Option (Report × ReportStatus)
  | .commitReset q _ _ => match s.requests[q]? with
    | some ⟨_, .reset loaded⟩ => some (loaded, .queued)
    | _ => none
  | .commitStartFailed q _ => match s.requests[q]? with
    | some ⟨_, .markStartFailed loaded _⟩ => some (loaded, .workflowStartFailed)
    | _ => none
  | .exec i _ => match s.attempts[i]? with
    | some ⟨_, activity, .loaded loaded⟩ => activity.statusWrite.map fun w => (loaded, w.2)
    | _ => none
  | _ => none

variable {s s' : System} {a : Action} {r : String}

theorem getReport_eq_some {row : Report} (h : s.getReport r = some row) :
    row ∈ s.reports ∧ row.id = r :=
  ⟨List.mem_of_find?_eq_some h, by simpa using List.find?_some h⟩

theorem isSome_getReport : (s.getReport r).isSome ↔ ∃ row ∈ s.reports, row.id = r := by
  simp [getReport, List.find?_isSome]

theorem getReport_commitStatus {loaded : Report} {status : ReportStatus} {now : Time}
    (h : s'.reports = commitStatus s.reports loaded status now) (r : String) :
    s'.getReport r = (s.getReport r).map (loaded.writeBack status now) := by
  simp only [getReport, h, commitStatus, List.find?_map]
  congr 2
  funext row
  simp

theorem getReport_append {row : Report} (h : s'.reports = s.reports ++ [row]) (r : String) :
    s'.getReport r = (s.getReport r).or (if row.id = r then some row else none) := by
  simp only [getReport, h, List.find?_append, List.find?_singleton]
  simp

theorem status_commitStatus {loaded : Report} {status : ReportStatus} {now : Time}
    (h : s'.reports = commitStatus s.reports loaded status now) (r : String) :
    s'.status r = if r = loaded.id then (s.status r).map (column loaded.status status.value)
      else s.status r := by
  simp only [System.status, getReport_commitStatus h]
  cases hget : s.getReport r with
  | none => simp
  | some row =>
    have hid := (getReport_eq_some hget).2
    simp only [Option.map_some, Report.status_writeBack, hid]
    split <;> rfl

theorem ofCommit_eq {writer : Writer} {loaded : Report} {status : ReportStatus} :
    Event.ofCommit writer loaded status s.reports =
      .statusCommitted writer loaded.id status (s.status loaded.id = some status.value) := by
  rw [Event.ofCommit, System.status, getReport]
  cases s.reports.find? _ <;> simp

theorem statusWrite_of_upsertCall {activity : Activity}
    {c : UpsertCall × Value} (h : activity.upsertCall = some c) : activity.statusWrite = none := by
  cases activity <;> first | rfl | cases h

/-- A statement other than the commit of a loaded row writes no status. -/
theorem statusWrite_exec {i : ℕ} {x : Attempt} {input : Input} (hx : s.attempts[i]? = some x)
    (h : (∀ loaded, x.phase ≠ .loaded loaded) ∨ x.activity.statusWrite = none) :
    s.statusWrite (.exec i input) = none := by
  obtain ⟨ρ, activity, phase⟩ := x
  cases phase with
  | loaded row =>
    rcases h with h | h
    · exact absurd rfl (h row)
    · simp only at h
      simp [statusWrite, hx, h]
  | _ => simp [statusWrite, hx]

theorem statusWrite_exec_loaded {i : ℕ} {x : Attempt} {loaded : Report} {reportId : String}
    {status : ReportStatus} {input : Input} (hx : s.attempts[i]? = some x)
    (hp : x.phase = .loaded loaded) (hw : x.activity.statusWrite = some (reportId, status)) :
    s.statusWrite (.exec i input) = some (loaded, status) := by
  obtain ⟨ρ, activity, phase⟩ := x
  simp only at hp hw
  simp [statusWrite, hx, hp, hw]

/-- The three operations that write a status. -/
theorem statusWrite_eq_some {loaded : Report} {status : ReportStatus}
    (hw : s.statusWrite a = some (loaded, status)) :
    (∃ q e now raises, a = .commitReset q now raises ∧
      s.requests[q]? = some ⟨e, .reset loaded⟩ ∧ status = .queued) ∨
    (∃ q e now cause, a = .commitStartFailed q now ∧
      s.requests[q]? = some ⟨e, .markStartFailed loaded cause⟩ ∧ status = .workflowStartFailed) ∨
    (∃ i x input r, a = .exec i input ∧ s.attempts[i]? = some x ∧ x.phase = .loaded loaded ∧
      x.activity.statusWrite = some (r, status)) := by
  cases a with
  | commitReset q now raises =>
    simp only [statusWrite] at hw
    split at hw
    · rename_i e _ hq
      cases hw
      exact .inl ⟨q, e, now, raises, rfl, hq, rfl⟩
    · cases hw
  | commitStartFailed q now =>
    simp only [statusWrite] at hw
    split at hw
    · rename_i e _ cause hq
      cases hw
      exact .inr (.inl ⟨q, e, now, cause, rfl, hq, rfl⟩)
    · cases hw
  | exec i input =>
    simp only [statusWrite] at hw
    split at hw
    · rename_i hx
      obtain ⟨⟨r, status'⟩, hw', hw⟩ := Option.map_eq_some_iff.mp hw
      cases hw
      exact .inr (.inr ⟨i, _, input, r, rfl, hx, rfl, hw'⟩)
    · cases hw
  | _ => cases hw

theorem PublishMove.statusWrite {activity : Activity} {p next : AttemptPhase} {m : Message}
    (hm : PublishMove activity p m next) : activity.statusWrite = none := by
  cases hm <;> rfl

section
variable [UnicodeData]

theorem AttemptMove.statusWrite {i : ℕ} {x : Attempt} {p : AttemptPhase}
    (hm : AttemptMove s i a x.activity x.phase p) (hx : s.attempts[i]? = some x) :
    s.statusWrite a = none := by
  obtain ⟨ρ, activity, phase⟩ := x
  cases hm with
  | raised input e hp => rcases hp with rfl | ⟨now, rfl⟩ <;> simp [System.statusWrite, hx]
  | failed => rfl
  | loaded | selected | classified | scored | decided => simp [System.statusWrite, hx]

/-- The only three ways `reports` changes. -/
theorem Effect.reports (he : Effect s a s') :
    (s.statusWrite a = none ∧ s'.reports = s.reports) ∨
    (s.statusWrite a = none ∧ ∃ q e row raises, a = .commitInsert q raises ∧
      s.requests[q]? = some ⟨e, .commit row⟩ ∧ s'.reports = s.reports ++ [row]) ∨
    (∃ loaded status now, s.statusWrite a = some (loaded, status) ∧
      s'.reports = commitStatus s.reports loaded status now) := by
  cases he with
  | arrived => exact .inl ⟨rfl, rfl⟩
  | requestMoved hq hm => cases hm <;> exact .inl ⟨rfl, rfl⟩
  | inserted raises hq => exact .inr (.inl ⟨rfl, _, _, _, raises, rfl, hq, rfl⟩)
  | reset now raises hq => exact .inr (.inr ⟨_, _, now, by simp [statusWrite, hq], rfl⟩)
  | started outcome hq => exact .inl ⟨rfl, rfl⟩
  | startFailed now hq => exact .inr (.inr ⟨_, _, now, by simp [statusWrite, hq], rfl⟩)
  | scheduled => exact .inl ⟨rfl, rfl⟩
  | runMoved hρ hopen hm => cases hm <;> exact .inl ⟨rfl, rfl⟩
  | attemptMoved hx hm => exact .inl ⟨hm.statusWrite hx, rfl⟩
  | marked input hx hp hw hresult =>
    exact .inr (.inr ⟨_, _, input.now, statusWrite_exec_loaded hx hp hw, rfl⟩)
  | upserted ha hx hc hu hm =>
    refine .inl ⟨?_, rfl⟩
    rcases ha with ⟨input, rfl⟩ | ⟨e, rfl⟩
    · exact statusWrite_exec hx (.inr (statusWrite_of_upsertCall hc))
    · rfl
  | published input hx hm hp =>
    exact .inl ⟨statusWrite_exec hx (.inr hm.statusWrite), rfl⟩

/-- A row stays, with its content. -/
theorem Effect.getReport_some (he : Effect s a s') {row : Report} (h : s.getReport r = some row) :
    ∃ row', s'.getReport r = some row' ∧ row.SameContent row' := by
  rcases he.reports with ⟨-, hsame⟩ | ⟨-, q, e, new, raises, -, -, happend⟩ |
    ⟨loaded, status, now, -, hcommit⟩
  · exact ⟨row, by rw [getReport, hsame]; exact h, .refl row⟩
  · exact ⟨row, by rw [getReport_append happend, h]; rfl, .refl row⟩
  · refine ⟨loaded.writeBack status now row, ?_, Report.sameContent_writeBack ..⟩
    rw [getReport_commitStatus hcommit, h]
    rfl

/-- The same for a row known by its place in the table. -/
theorem Effect.row_kept (he : Effect s a s') {row : Report} (h : row ∈ s.reports) :
    ∃ row' ∈ s'.reports, row.SameContent row' := by
  rcases he.reports with ⟨-, hsame⟩ | ⟨-, q, e, new, raises, -, -, happend⟩ |
    ⟨loaded, status, now, -, hcommit⟩
  · exact ⟨row, hsame ▸ h, .refl row⟩
  · exact ⟨row, happend ▸ List.mem_append_left _ h, .refl row⟩
  · refine ⟨loaded.writeBack status now row, ?_, Report.sameContent_writeBack ..⟩
    rw [hcommit]
    exact List.mem_map_of_mem h

theorem Effect.isSome_getReport (he : Effect s a s') (h : (s.getReport r).isSome) :
    (s'.getReport r).isSome := by
  obtain ⟨row, hrow⟩ := Option.isSome_iff_exists.mp h
  obtain ⟨row', hrow', -⟩ := he.getReport_some hrow
  exact Option.isSome_iff_exists.mpr ⟨row', hrow'⟩

/-- How a step can change the stored status of a report. -/
theorem Effect.status (he : Effect s a s') (r : String) :
    s'.status r = s.status r ∨
    (∃ q e row raises, a = .commitInsert q raises ∧ s.requests[q]? = some ⟨e, .commit row⟩ ∧
      row.id = r ∧ s.status r = none ∧ s'.status r = some row.status) ∨
    (∃ loaded status, s.statusWrite a = some (loaded, status) ∧ loaded.id = r ∧
      s'.status r = (s.status r).map (column loaded.status status.value)) := by
  rcases he.reports with ⟨-, hsame⟩ | ⟨-, q, e, new, raises, ha, hq, happend⟩ |
    ⟨loaded, status, now, hw, hcommit⟩
  · exact .inl (by rw [System.status, System.status, getReport, getReport, hsame])
  · simp only [System.status, getReport_append happend]
    cases hget : s.getReport r with
    | some row => exact .inl (by simp)
    | none =>
      by_cases hid : new.id = r
      · exact .inr (.inl ⟨q, e, new, raises, ha, hq, hid, by simp, by simp [hid]⟩)
      · exact .inl (by simp [hid])
  · rw [status_commitStatus hcommit]
    by_cases hid : r = loaded.id
    · exact .inr (.inr ⟨loaded, status, hw, hid.symm, by rw [if_pos hid]⟩)
    · exact .inl (if_neg hid)

/-! ## Requests -/

/-- A request goes from one await to the next. -/
inductive RequestStep (s : System) (q : ℕ) : Action → Endpoint → RequestPc → RequestPc → Prop
  | moved {a : Action} {e : Endpoint} {pc pc' : RequestPc} (hm : RequestMove s q a e pc pc') :
      RequestStep s q a e pc pc'
  | inserted {e : Endpoint} {row : Report} (raises : Bool) :
      RequestStep s q (.commitInsert q raises) e (.commit row)
        (if raises then .done .serverError else .start row.id none)
  | reset {e : Endpoint} {loaded : Report} (now : Time) (raises : Bool) :
      RequestStep s q (.commitReset q now raises) e (.reset loaded)
        (if raises then .done .serverError
          else .start loaded.id (some (loaded.assignStatus .queued now)))
  | started {e : Endpoint} {reportId : String} {held : Option Report} :
      RequestStep s q (.start q .accepted) e (.start reportId held) (.done (e.started reportId))
  | notStarted {e : Endpoint} {reportId cause : String} {held : Option Report}
      (outcome : StartOutcome)
      (houtcome : outcome = .rejected cause ∨ outcome = .acceptedButRaised cause) :
      RequestStep s q (.start q outcome) e (.start reportId held) (.startFailed reportId cause held)
  | startFailed {e : Endpoint} {loaded : Report} {cause : String} (now : Time) :
      RequestStep s q (.commitStartFailed q now) e (.markStartFailed loaded cause)
        (.done (e.startFailed loaded.id cause))

/-! ### The steps, by where they lead -/

omit [UnicodeData] in
theorem RequestStep.to_commit {q : ℕ} {e : Endpoint} {pc : RequestPc} {row : Report}
    (h : RequestStep s q a e pc (.commit row)) :
    ∃ payload key reportId now, a = .insert q reportId now ∧ e = .create payload key ∧
      pc = .insert ∧ row = createReport payload.stored reportId key now ∧
      (∀ r ∈ s.reports, ¬ r.Collides row) ∧ ∀ r ∈ s.requests, ¬ r.pc.Blocks row := by
  generalize hpc' : RequestPc.commit row = pc' at h
  cases h with
  | moved hm =>
    cases hm <;> cases hpc'
    rename_i reportId now hfree hwait
    exact ⟨_, _, reportId, now, rfl, rfl, rfl, rfl, hfree, hwait⟩
  | inserted raises => cases raises <;> cases hpc'
  | reset now raises => cases raises <;> cases hpc'
  | @notStarted _ _ _ held => cases held <;> cases hpc'
  | started | startFailed => cases hpc'

omit [UnicodeData] in
theorem RequestStep.to_reset {q : ℕ} {e : Endpoint} {pc : RequestPc} {loaded : Report}
    (h : RequestStep s q a e pc (.reset loaded)) :
    a = .loadForReprocess q ∧ e = .reprocess loaded.id ∧ pc = .getReport ∧
      s.getReport loaded.id = some loaded := by
  generalize hpc' : RequestPc.reset loaded = pc' at h
  cases h with
  | moved hm =>
    cases hm <;> cases hpc'
    rename_i reportId hget
    obtain rfl : loaded.id = reportId := (getReport_eq_some hget).2
    exact ⟨rfl, rfl, rfl, hget⟩
  | inserted raises => cases raises <;> cases hpc'
  | reset now raises => cases raises <;> cases hpc'
  | @notStarted _ _ _ held => cases held <;> cases hpc'
  | started | startFailed => cases hpc'

omit [UnicodeData] in
/-- The start window is entered by the commit of `queued`, and passed through by a start that
is not answered well and by the SELECT after it. -/
theorem RequestStep.to_window {q : ℕ} {e : Endpoint} {pc pc' : RequestPc}
    (h : RequestStep s q a e pc pc') (hpc' : pc'.startWindow.isSome = true) :
    (∃ row, a = .commitInsert q false ∧ pc = .commit row ∧ pc' = .start row.id none) ∨
    (∃ loaded now, a = .commitReset q now false ∧ pc = .reset loaded ∧
      pc' = .start loaded.id (some (loaded.assignStatus .queued now))) ∨
    (∃ reportId held cause outcome, a = .start q outcome ∧ pc = .start reportId held ∧
      pc' = .startFailed reportId cause held ∧
      (outcome = .rejected cause ∨ outcome = .acceptedButRaised cause)) ∨
    (∃ reportId cause row, a = .loadStartFailed q ∧ pc = .loadStartFailed reportId cause ∧
      s.getReport reportId = some row ∧ pc' = .markStartFailed row cause) := by
  cases h with
  | moved hm =>
    cases hm <;> cases hpc'
    rename_i reportId cause row hget
    exact .inr (.inr (.inr ⟨reportId, cause, row, rfl, rfl, hget, rfl⟩))
  | inserted raises =>
    cases raises <;> cases hpc'
    exact .inl ⟨_, rfl, rfl, rfl⟩
  | reset now raises =>
    cases raises <;> cases hpc'
    exact .inr (.inl ⟨_, now, rfl, rfl, rfl⟩)
  | started | startFailed => cases hpc'
  | notStarted outcome houtcome =>
    exact .inr (.inr (.inl ⟨_, _, _, outcome, rfl, rfl, rfl, houtcome⟩))

omit [UnicodeData] in
/-- A request that is past its first commit does not come back before it, nor does it call
`start_workflow` again. -/
theorem RequestStep.isBeforeStart {q : ℕ} {e : Endpoint} {pc pc' : RequestPc}
    (h : RequestStep s q a e pc pc') (hpc : pc.isBeforeStart = false) :
    pc'.isBeforeStart = false ∧ ∀ reportId held, pc' ≠ .start reportId held := by
  cases h with
  | moved hm =>
    cases hm <;> first | exact ⟨rfl, nofun⟩ | cases hpc
  | inserted | reset => cases hpc
  | @notStarted _ _ _ held => cases held <;> exact ⟨rfl, nofun⟩
  | started | startFailed => exact ⟨rfl, nofun⟩

omit [UnicodeData] in
theorem isBeforeStart_of_startWindow {pc : RequestPc} {r : String}
    (h : pc.startWindow = some r) : pc.isBeforeStart = false := by
  cases pc <;> first | rfl | cases h

omit [UnicodeData] in
theorem startWindow_of_failedStart {pc : RequestPc} {reportId cause : String}
    (h : pc.failedStart = some (reportId, cause)) : pc.startWindow = some reportId := by
  cases pc <;> cases h <;> rfl

omit [UnicodeData] in
theorem RequestStep.not_done {q : ℕ} {e : Endpoint} {response : Response} {pc' : RequestPc}
    (h : RequestStep s q a e (.done response) pc') : False := by
  cases h with
  | moved hm =>
    cases hm with
    | failed hpc | stopped hpc | dropped hpc => cases hpc

omit [UnicodeData] in
theorem setPc_cases {q i : ℕ} {e : Endpoint} {pc pc' : RequestPc} {r : Request}
    (hq : s.requests[q]? = some ⟨e, pc⟩) (hr : (s.setPc q pc').requests[i]? = some r) :
    (i = q ∧ r = ⟨e, pc'⟩) ∨ (i ≠ q ∧ s.requests[i]? = some r) := by
  rcases Slots.modify_cases hr with ⟨rfl, x, hx, rfl⟩ | hne
  · rw [hq] at hx
    cases hx
    exact .inl ⟨rfl, rfl⟩
  · exact .inr hne

omit [UnicodeData] in
theorem firstPc_eq (e : Endpoint) :
    e.firstPc = .lookup ∨ e.firstPc = .insert ∨ e.firstPc = .getReport := by
  rcases e with ⟨payload, _ | key⟩ | reportId <;> simp [Endpoint.firstPc]

/-- A request after a step: as before, just arrived, or one await further. -/
theorem Effect.request (he : Effect s a s') {q : ℕ} {e : Endpoint} {pc' : RequestPc}
    (hq' : s'.requests[q]? = some ⟨e, pc'⟩) :
    s.requests[q]? = some ⟨e, pc'⟩ ∨ (a = .arrive e ∧ q = s.requests.length ∧ pc' = e.firstPc) ∨
      ∃ pc, s.requests[q]? = some ⟨e, pc⟩ ∧ RequestStep s q a e pc pc' := by
  have hview : ∀ {i : ℕ} {f : Endpoint} {pc pc₁ : RequestPc}, s.requests[i]? = some ⟨f, pc⟩ →
      RequestStep s i a f pc pc₁ → (s.setPc i pc₁).requests[q]? = some ⟨e, pc'⟩ →
      s.requests[q]? = some ⟨e, pc'⟩ ∨ ∃ pc, s.requests[q]? = some ⟨e, pc⟩ ∧
        RequestStep s q a e pc pc' := by
    intro i f pc pc₁ hi hstep hmoved
    rcases setPc_cases hi hmoved with ⟨rfl, heq⟩ | ⟨-, hsame⟩
    · cases heq
      exact .inr ⟨pc, hi, hstep⟩
    · exact .inl hsame
  cases he with
  | arrived endpoint =>
    rcases Slots.append_cases hq' with hold | ⟨hlen, heq⟩
    · exact .inl hold
    · cases heq
      exact .inr (.inl ⟨rfl, hlen, rfl⟩)
  | requestMoved hi hm => exact (hview hi (.moved hm) hq').imp_right .inr
  | inserted raises hi => exact (hview hi (.inserted raises) hq').imp_right .inr
  | reset now raises hi => exact (hview hi (.reset now raises) hq').imp_right .inr
  | started outcome hi =>
    refine (hview hi ?_ hq').imp_right .inr
    cases outcome with
    | accepted => exact .started
    | rejected cause => exact .notStarted _ (.inl rfl)
    | acceptedButRaised cause => exact .notStarted _ (.inr rfl)
  | startFailed now hi => exact (hview hi (.startFailed now) hq').imp_right .inr
  | scheduled | runMoved | attemptMoved | marked | upserted | published => exact .inl hq'

/-- A request is never forgotten, nor its endpoint. -/
theorem Effect.request_kept (he : Effect s a s') {q : ℕ} {e : Endpoint} {pc : RequestPc}
    (hq : s.requests[q]? = some ⟨e, pc⟩) : ∃ pc', s'.requests[q]? = some ⟨e, pc'⟩ := by
  have hmodify : ∀ (i : ℕ) (pc₁ : RequestPc),
      ∃ pc', (s.setPc i pc₁).requests[q]? = some ⟨e, pc'⟩ := by
    intro i pc₁
    by_cases hi : q = i
    · subst hi
      exact ⟨pc₁, Slots.modify_self hq⟩
    · exact ⟨pc, (Slots.modify_of_ne hi).trans hq⟩
  cases he with
  | arrived => exact ⟨pc, Slots.append_of_some hq⟩
  | requestMoved | inserted | reset | started | startFailed => exact hmodify _ _
  | scheduled | runMoved | attemptMoved | marked | upserted | published => exact ⟨pc, hq⟩

/-- Where a request is after a step, from where it was. -/
theorem Effect.request_next (he : Effect s a s') {q : ℕ} {e : Endpoint} {pc : RequestPc}
    (hq : s.requests[q]? = some ⟨e, pc⟩) :
    ∃ pc', s'.requests[q]? = some ⟨e, pc'⟩ ∧ (pc' = pc ∨ RequestStep s q a e pc pc') := by
  obtain ⟨pc', hq'⟩ := he.request_kept hq
  refine ⟨pc', hq', ?_⟩
  rcases he.request hq' with hold | ⟨-, hlen, -⟩ | ⟨pc₀, hold, hstep⟩
  · rw [hq] at hold
    cases hold
    exact .inl rfl
  · have := (List.getElem?_eq_some_iff.mp hq).1
    omega
  · rw [hq] at hold
    cases hold
    exact .inr hstep

/-! What the actions that touch more than the request do. -/

theorem Effect.of_commitInsert {q : ℕ} {raises : Bool} {e : Endpoint} {row : Report}
    (he : Effect s (.commitInsert q raises) s') (hq : s.requests[q]? = some ⟨e, .commit row⟩) :
    s'.requests[q]? = some ⟨e, if raises then .done .serverError else .start row.id none⟩ ∧
      s'.reports = s.reports ++ [row] ∧ s'.history = .inserted q row.id :: s.history := by
  cases he with
  | inserted _ hq' =>
    rw [hq] at hq'
    cases hq'
    exact ⟨Slots.modify_self hq, rfl, rfl⟩
  | requestMoved _ hm | runMoved _ _ hm | attemptMoved _ hm => nomatch hm
  | upserted ha => simp at ha

theorem Effect.of_commitReset {q : ℕ} {now : Time} {raises : Bool} {e : Endpoint}
    {loaded : Report} (he : Effect s (.commitReset q now raises) s')
    (hq : s.requests[q]? = some ⟨e, .reset loaded⟩) :
    s'.requests[q]? = some ⟨e, if raises then .done .serverError
      else .start loaded.id (some (loaded.assignStatus .queued now))⟩ := by
  cases he with
  | reset _ _ hq' =>
    rw [hq] at hq'
    cases hq'
    exact Slots.modify_self hq
  | requestMoved _ hm | runMoved _ _ hm | attemptMoved _ hm => nomatch hm
  | upserted ha => simp at ha

theorem Effect.of_start {q : ℕ} {outcome : StartOutcome} {e : Endpoint} {reportId : String}
    {held : Option Report} (he : Effect s (.start q outcome) s')
    (hq : s.requests[q]? = some ⟨e, .start reportId held⟩) :
    ∃ pc', s'.requests[q]? = some ⟨e, pc'⟩ ∧
      RequestStep s q (.start q outcome) e (.start reportId held) pc' ∧
      s'.runs = (if outcome.reachesServer then startWorkflow s.runs reportId else s.runs) ∧
      s'.history = .startCalled q reportId outcome :: s.history := by
  cases he with
  | started _ hq' =>
    rw [hq] at hq'
    cases hq'
    refine ⟨_, Slots.modify_self hq, ?_, rfl, rfl⟩
    cases outcome with
    | accepted => exact .started
    | rejected cause => exact .notStarted _ (.inl rfl)
    | acceptedButRaised cause => exact .notStarted _ (.inr rfl)
  | requestMoved _ hm | runMoved _ _ hm | attemptMoved _ hm => nomatch hm
  | upserted ha => simp at ha

theorem Effect.of_commitStartFailed {q : ℕ} {now : Time} {e : Endpoint} {loaded : Report}
    {cause : String} (he : Effect s (.commitStartFailed q now) s')
    (hq : s.requests[q]? = some ⟨e, .markStartFailed loaded cause⟩) :
    s'.requests[q]? = some ⟨e, .done (e.startFailed loaded.id cause)⟩ ∧
      s'.reports = commitStatus s.reports loaded .workflowStartFailed now := by
  cases he with
  | startFailed _ hq' =>
    rw [hq] at hq'
    cases hq'
    exact ⟨Slots.modify_self hq, rfl⟩
  | requestMoved _ hm | runMoved _ _ hm | attemptMoved _ hm => nomatch hm
  | upserted ha => simp at ha

/-- An answer is final. -/
theorem done_of_path {q : ℕ} {e : Endpoint} {response : Response}
    (hp : machine.Path (fun _ _ => True) s s') (hq : s.requests[q]? = some ⟨e, .done response⟩) :
    s'.requests[q]? = some ⟨e, .done response⟩ := by
  refine hp.invariant (I := fun t => t.requests[q]? = some ⟨e, .done response⟩) hq ?_
  intro t a u _ ht _ hstep
  obtain ⟨pc', hu, rfl | hstep⟩ := (effect_of_step hstep).request_next ht
  · exact hu
  · exact hstep.not_done.elim

/-! ## Attempts -/

/-- An attempt executes one statement; `s'` is the state after it. -/
inductive AttemptStep (s s' : System) (i : ℕ) (x : Attempt) : Action → AttemptPhase → Prop
  | moved {a : Action} {p : AttemptPhase} (hm : AttemptMove s i a x.activity x.phase p) :
      AttemptStep s s' i x a p
  | marked {loaded : Report} {reportId : String} {status : ReportStatus}
      {result : Except Failure Value} (input : Input) (hp : x.phase = .loaded loaded)
      (hw : x.activity.statusWrite = some (reportId, status))
      (hresult : result = .ok .null ∨ ∃ e, result = .error e)
      (hreports : s'.reports = commitStatus s.reports loaded status input.now)
      (hhistory : s'.history = .ofCommit (.attempt i) loaded status s'.reports :: s.history) :
      AttemptStep s s' i x (.exec i input) (.finished result)
  | upserted {a : Action} {call : UpsertCall} {v : Value} {b : Upserts.Action} {p : AttemptPhase}
      (hc : x.activity.upsertCall = some (call, v)) (hu : s.upserts.step b = some s'.upserts)
      (hm : UpsertMove s.upserts s'.upserts call v b x.phase p) : AttemptStep s s' i x a p
  | published {a : Action} {m : Message} {next p : AttemptPhase}
      (hm : PublishMove x.activity x.phase m next) (hp : p = next ∨ ∃ e, p = .finished (.error e))
      (hstream : s'.stream = s.store m) : AttemptStep s s' i x a p

/-- An attempt executes no further than its end. -/
theorem AttemptStep.not_finished {i : ℕ} {x : Attempt} {p : AttemptPhase}
    (h : AttemptStep s s' i x a p) : x.isFinished = false := by
  obtain ⟨ρ, activity, phase⟩ := x
  cases h with
  | moved hm =>
    cases hm with
    | raised _ _ hp => rcases hp with rfl | ⟨now, rfl⟩ <;> rfl
    | failed _ hp =>
      cases phase with
      | finished result => exact (hp result rfl).elim
      | _ => rfl
    | _ => rfl
  | marked _ hp => cases hp; rfl
  | upserted hc hu hm => cases hm <;> rfl
  | published hm => cases hm <;> rfl

/-- A row is loaded by the first statement of an activity that writes its status. -/
theorem AttemptStep.to_loaded {i : ℕ} {x : Attempt} {row : Report}
    (h : AttemptStep s s' i x a (.loaded row)) :
    (∃ input, a = .exec i input) ∧ x.phase = .running ∧
      (∃ status, x.activity.statusWrite = some (row.id, status)) ∧
      s.getReport row.id = some row := by
  obtain ⟨ρ, activity, phase⟩ := x
  generalize hp' : AttemptPhase.loaded row = p' at h
  cases h with
  | moved hm =>
    cases hm <;> cases hp'
    rename_i input hw hget
    have hid := (getReport_eq_some hget).2
    exact ⟨⟨input, rfl⟩, rfl, ⟨_, hid ▸ hw⟩, hid ▸ hget⟩
  | marked => cases hp'
  | upserted hc hu hm => cases hm <;> cases hp'
  | published hm hnext =>
    rcases hnext with rfl | ⟨e, rfl⟩
    · cases hm <;> cases hp'
    · cases hp'

/-- An activity that writes a status returns with the commit of the write. -/
theorem AttemptStep.to_marked {i : ℕ} {x : Attempt} {v : Value} {r : String}
    {status : ReportStatus} (h : AttemptStep s s' i x a (.finished (.ok v)))
    (hw : x.activity.statusWrite = some (r, status)) :
    ∃ input loaded, a = .exec i input ∧ x.phase = .loaded loaded ∧
      s'.reports = commitStatus s.reports loaded status input.now ∧
      s'.history = .ofCommit (.attempt i) loaded status s'.reports :: s.history := by
  obtain ⟨ρ, activity, phase⟩ := x
  generalize hp' : AttemptPhase.finished (.ok v) = p' at h
  cases h with
  | moved hm => cases hm <;> cases hp' <;> cases hw
  | marked input hp hw' hresult hreports hhistory =>
    rw [hw] at hw'
    cases hw'
    exact ⟨input, _, rfl, hp, hreports, hhistory⟩
  | upserted hc =>
    rw [statusWrite_of_upsertCall hc] at hw
    cases hw
  | published hm =>
    rw [hm.statusWrite] at hw
    cases hw

omit [UnicodeData] in
theorem setPhase_cases {i j : ℕ} {x y : Attempt} {p : AttemptPhase}
    (hx : s.attempts[i]? = some x) (hy : (s.setPhase i p).attempts[j]? = some y) :
    (j = i ∧ y = { x with phase := p }) ∨ (j ≠ i ∧ s.attempts[j]? = some y) := by
  rcases Slots.modify_cases hy with ⟨rfl, z, hz, rfl⟩ | hne
  · rw [hx] at hz
    cases hz
    exact .inl ⟨rfl, rfl⟩
  · exact .inr hne

/-- An attempt after a step: as before, just scheduled, or one statement further. -/
theorem Effect.attempt (he : Effect s a s') {i : ℕ} {y : Attempt}
    (hy : s'.attempts[i]? = some y) :
    s.attempts[i]? = some y ∨
    (i = s.attempts.length ∧ ∃ ρ run call, a = .schedule ρ ∧ s.runs[ρ]? = some run ∧
      run.outstanding = none ∧ run.pc.call run.reportId = some call ∧
      y = ⟨ρ, call.activity, .running⟩) ∨
    ∃ x p, s.attempts[i]? = some x ∧ y = { x with phase := p } ∧ AttemptStep s s' i x a p := by
  have hview : ∀ {j : ℕ} {x : Attempt} {p : AttemptPhase}, s.attempts[j]? = some x →
      AttemptStep s s' j x a p → (s.setPhase j p).attempts[i]? = some y →
      s.attempts[i]? = some y ∨
        ∃ x p, s.attempts[i]? = some x ∧ y = { x with phase := p } ∧ AttemptStep s s' i x a p := by
    intro j x p hx hstep hmoved
    rcases setPhase_cases hx hmoved with ⟨rfl, heq⟩ | ⟨-, hsame⟩
    · exact .inr ⟨x, p, hx, heq, hstep⟩
    · exact .inl hsame
  cases he with
  | arrived | requestMoved | inserted | reset | started | startFailed | runMoved => exact .inl hy
  | scheduled hρ hcall hopen hout =>
    rcases Slots.append_cases hy with hold | ⟨hlen, rfl⟩
    · exact .inl hold
    · exact .inr (.inl ⟨hlen, _, _, _, rfl, hρ, hout, hcall, rfl⟩)
  | attemptMoved hx hm => exact (hview hx (.moved hm) hy).imp_right .inr
  | marked input hx hp hw hresult =>
    exact (hview hx (.marked input hp hw hresult rfl rfl) hy).imp_right .inr
  | upserted ha hx hc hu hm => exact (hview hx (.upserted hc hu hm) hy).imp_right .inr
  | published input hx hm hp => exact (hview hx (.published hm hp rfl) hy).imp_right .inr

/-- An attempt is never forgotten, nor its run and its activity. -/
theorem Effect.attempt_kept (he : Effect s a s') {i : ℕ} {x : Attempt}
    (hx : s.attempts[i]? = some x) : ∃ p, s'.attempts[i]? = some { x with phase := p } := by
  have hmodify : ∀ (j : ℕ) (p₁ : AttemptPhase),
      ∃ p, (s.setPhase j p₁).attempts[i]? = some { x with phase := p } := by
    intro j p₁
    by_cases hj : i = j
    · subst hj
      exact ⟨p₁, Slots.modify_self hx⟩
    · exact ⟨x.phase, (Slots.modify_of_ne hj).trans hx⟩
  cases he with
  | scheduled => exact ⟨x.phase, Slots.append_of_some hx⟩
  | attemptMoved | marked | upserted | published => exact hmodify _ _
  | arrived | requestMoved | inserted | reset | started | startFailed | runMoved =>
    exact ⟨x.phase, hx⟩

/-- An attempt that has finished stays as it is. -/
theorem Effect.attempt_finished (he : Effect s a s') {i : ℕ} {x : Attempt}
    (hx : s.attempts[i]? = some x) (hfinished : x.isFinished = true) :
    s'.attempts[i]? = some x := by
  obtain ⟨p, hx'⟩ := he.attempt_kept hx
  rcases he.attempt hx' with hold | ⟨hlen, -⟩ | ⟨y, p', hy, -, hstep⟩
  · rw [hx] at hold
    exact hold.symm ▸ hx'
  · have := (List.getElem?_eq_some_iff.mp hx).1
    omega
  · rw [hx] at hy
    cases hy
    rw [hstep.not_finished] at hfinished
    cases hfinished

/-- The only statement left to an attempt that has loaded a row is the commit of its write. -/
theorem Effect.of_mark {i : ℕ} {input : Input} {x : Attempt} {loaded : Report} {r : String}
    {status : ReportStatus} (he : Effect s (.exec i input) s') (hx : s.attempts[i]? = some x)
    (hp : x.phase = .loaded loaded) (hw : x.activity.statusWrite = some (r, status)) :
    ∃ result, (result = .ok .null ∨ ∃ e, result = .error e) ∧
      s'.attempts[i]? = some { x with phase := .finished result } ∧
      s'.reports = commitStatus s.reports loaded status input.now ∧
      s'.history = .ofCommit (.attempt i) loaded status s'.reports :: s.history := by
  obtain ⟨ρ, activity, phase⟩ := x
  obtain rfl : phase = .loaded loaded := hp
  cases he with
  | marked _ hx' hp' hw' hresult =>
    rw [hx] at hx'
    cases hx'
    cases hp'
    rw [hw] at hw'
    cases hw'
    exact ⟨_, hresult, Slots.modify_self hx, rfl, rfl⟩
  | @attemptMoved _ j y p hx' hm =>
    obtain ⟨σ, activity', phase'⟩ := y
    obtain rfl : j = i := by cases hm <;> rfl
    rw [hx] at hx'
    cases hx'
    cases hm with
    | raised _ e hp' => simp at hp'
  | upserted ha hx' hc hu hm =>
    obtain ⟨input', ha⟩ := ha.resolve_right (by simp)
    cases ha
    rw [hx] at hx'
    cases hx'
    cases hm
  | published _ hx' hm =>
    rw [hx] at hx'
    cases hx'
    cases hm
  | requestMoved _ hm => nomatch hm
  | runMoved _ _ hm => nomatch hm

/-! ## Runs -/

omit [UnicodeData] in
theorem RunMove.reportId {ρ : ℕ} {run run' : Run} (hm : RunMove s ρ run a run') :
    run'.reportId = run.reportId := by
  cases hm with
  | succeeded hout hx hp hrun => exact Run.reportId_of_succeeded hrun
  | failed | timedOut => exact Run.reportId_attemptFailed run _

/-- A run after a step: as before, just started, terminated by the start of another run of the
same report, with one attempt more, or moved on by Temporal. -/
inductive RunStep (s s' : System) (ρ : ℕ) : Action → Run → Prop
  | same {a : Action} {run : Run} (hρ : s.runs[ρ]? = some run) : RunStep s s' ρ a run
  | started {q : ℕ} {e : Endpoint} {reportId : String} {held : Option Report}
      (outcome : StartOutcome) (hq : s.requests[q]? = some ⟨e, .start reportId held⟩)
      (hreaches : outcome.reachesServer = true) (hlen : ρ = s.runs.length) :
      RunStep s s' ρ (.start q outcome) (Run.start reportId)
  | terminated {q : ℕ} {e : Endpoint} {reportId : String} {held : Option Report} {run : Run}
      (outcome : StartOutcome) (hq : s.requests[q]? = some ⟨e, .start reportId held⟩)
      (hreaches : outcome.reachesServer = true) (hρ : s.runs[ρ]? = some run)
      (hopen : run.isOpen = true) (hid : run.reportId = reportId) :
      RunStep s s' ρ (.start q outcome) { run with terminated := true }
  | scheduled {run : Run} {call : ActivityCall} (hρ : s.runs[ρ]? = some run)
      (hopen : run.isOpen = true) (hcall : run.pc.call run.reportId = some call)
      (hout : run.outstanding = none)
      (hattempts : s'.attempts = s.attempts ++ [⟨ρ, call.activity, .running⟩]) :
      RunStep s s' ρ (.schedule ρ)
        { run with attempts := run.attempts + 1, outstanding := some s.attempts.length }
  | moved {a : Action} {run run' : Run} (hρ : s.runs[ρ]? = some run) (hopen : run.isOpen = true)
      (hm : RunMove s ρ run a run') (hattempts : s'.attempts = s.attempts) : RunStep s s' ρ a run'

theorem Effect.run (he : Effect s a s') {ρ : ℕ} {run' : Run} (hρ' : s'.runs[ρ]? = some run') :
    RunStep s s' ρ a run' := by
  cases he with
  | arrived | requestMoved | inserted | reset | startFailed | attemptMoved | marked | upserted
  | published => exact .same hρ'
  | started outcome hq =>
    by_cases hreaches : outcome.reachesServer = true
    · simp only [hreaches, if_true, startWorkflow] at hρ'
      rcases Slots.append_cases hρ' with hold | ⟨hlen, rfl⟩
      · rw [List.getElem?_map] at hold
        obtain ⟨run, hρ, rfl⟩ := Option.map_eq_some_iff.mp hold
        split_ifs with hopen
        · exact .terminated outcome hq hreaches hρ hopen.1 (Run.workflowId_inj.mp hopen.2)
        · exact .same hρ
      · exact .started outcome hq hreaches (by simpa using hlen)
    · simp only [hreaches] at hρ'
      exact .same hρ'
  | scheduled hρ hcall hopen hout =>
    rcases Slots.set_cases hρ' with ⟨rfl, rfl⟩ | ⟨-, hsame⟩
    · exact .scheduled hρ hopen hcall hout rfl
    · exact .same hsame
  | runMoved hρ hopen hm =>
    rcases Slots.set_cases hρ' with ⟨rfl, rfl⟩ | ⟨-, hsame⟩
    · exact .moved hρ hopen hm rfl
    · exact .same hsame

theorem Effect.of_schedule {ρ : ℕ} (he : Effect s (.schedule ρ) s') :
    ∃ run call, s.runs[ρ]? = some run ∧ run.pc.call run.reportId = some call ∧
      run.outstanding = none ∧ s'.runs[ρ]? = some
        { run with attempts := run.attempts + 1, outstanding := some s.attempts.length } ∧
      s'.attempts = s.attempts ++ [⟨ρ, call.activity, .running⟩] := by
  cases he with
  | scheduled hρ hcall hopen hout => exact ⟨_, _, hρ, hcall, hout, Slots.set_self hρ, rfl⟩
  | requestMoved _ hm | runMoved _ _ hm | attemptMoved _ hm => nomatch hm
  | upserted ha => simp at ha

/-- The report of a run never changes. -/
theorem Effect.run_kept (he : Effect s a s') {ρ : ℕ} {run : Run} (hρ : s.runs[ρ]? = some run) :
    ∃ run', s'.runs[ρ]? = some run' ∧ run'.reportId = run.reportId := by
  cases he with
  | arrived | requestMoved | inserted | reset | startFailed | attemptMoved | marked | upserted
  | published => exact ⟨run, hρ, rfl⟩
  | started outcome hq =>
    dsimp only
    split
    · refine ⟨_, Slots.append_of_some (by rw [List.getElem?_map, hρ]; rfl), ?_⟩
      dsimp only
      split <;> rfl
    · exact ⟨run, hρ, rfl⟩
  | @scheduled i run₀ call hi hcall hopen hout =>
    by_cases heq : ρ = i
    · subst heq
      rw [hρ] at hi
      cases hi
      exact ⟨_, Slots.set_self hρ, rfl⟩
    · exact ⟨run, (List.getElem?_set_ne (Ne.symm heq)).trans hρ, rfl⟩
  | @runMoved a i run₀ run' hi hopen hm =>
    by_cases heq : ρ = i
    · subst heq
      rw [hρ] at hi
      cases hi
      exact ⟨run', Slots.set_self hρ, hm.reportId⟩
    · exact ⟨run, (List.getElem?_set_ne (Ne.symm heq)).trans hρ, rfl⟩

/-! ## The history -/

/-- The events an action records. -/
inductive Logged (s : System) : Action → Event → Prop
  | inserted {q : ℕ} {e : Endpoint} {row : Report} {raises : Bool}
      (hq : s.requests[q]? = some ⟨e, .commit row⟩) :
      Logged s (.commitInsert q raises) (.inserted q row.id)
  | reset {q : ℕ} {e : Endpoint} {loaded : Report} {now : Time} {raises : Bool}
      (hq : s.requests[q]? = some ⟨e, .reset loaded⟩) :
      Logged s (.commitReset q now raises)
        (.ofCommit (.request q) loaded .queued (commitStatus s.reports loaded .queued now))
  | started {q : ℕ} {e : Endpoint} {reportId : String} {held : Option Report}
      {outcome : StartOutcome} (hq : s.requests[q]? = some ⟨e, .start reportId held⟩) :
      Logged s (.start q outcome) (.startCalled q reportId outcome)
  | startFailed {q : ℕ} {e : Endpoint} {loaded : Report} {cause : String} {now : Time}
      (hq : s.requests[q]? = some ⟨e, .markStartFailed loaded cause⟩) :
      Logged s (.commitStartFailed q now)
        (.ofCommit (.request q) loaded .workflowStartFailed
          (commitStatus s.reports loaded .workflowStartFailed now))
  | marked {i : ℕ} {x : Attempt} {loaded : Report} {reportId : String} {status : ReportStatus}
      {input : Input} (hx : s.attempts[i]? = some x) (hp : x.phase = .loaded loaded)
      (hw : x.activity.statusWrite = some (reportId, status)) :
      Logged s (.exec i input) (.ofCommit (.attempt i) loaded status
        (commitStatus s.reports loaded status input.now))

/-- A step records one event or none. -/
theorem Effect.history (he : Effect s a s') :
    s'.history = s.history ∨ ∃ ev, Logged s a ev ∧ s'.history = ev :: s.history := by
  cases he with
  | arrived | requestMoved | scheduled | runMoved | attemptMoved | upserted | published =>
    exact .inl rfl
  | inserted raises hq => exact .inr ⟨_, .inserted hq, rfl⟩
  | reset now raises hq => exact .inr ⟨_, .reset hq, rfl⟩
  | started outcome hq => exact .inr ⟨_, .started hq, rfl⟩
  | startFailed now hq => exact .inr ⟨_, .startFailed hq, rfl⟩
  | marked input hx hp hw => exact .inr ⟨_, .marked hx hp hw, rfl⟩

theorem Effect.event (he : Effect s a s') {ev : Event} (hev : ev ∈ s'.history) :
    ev ∈ s.history ∨ Logged s a ev := by
  rcases he.history with hsame | ⟨ev', hlogged, hcons⟩
  · exact .inl (hsame ▸ hev)
  · rcases List.mem_cons.mp (hcons ▸ hev) with rfl | hold
    · exact .inr hlogged
    · exact .inl hold

theorem Effect.event_kept (he : Effect s a s') {ev : Event} (hev : ev ∈ s.history) :
    ev ∈ s'.history := by
  rcases he.history with hsame | ⟨ev', -, hcons⟩
  · exact hsame ▸ hev
  · exact hcons ▸ List.mem_cons_of_mem _ hev

end
end System

end ReportTriage

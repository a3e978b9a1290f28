import ReportTriage.Parties

/-!
# Local coherence

What a request, an attempt or a run holds agrees with the stores and with the party it
depends on. Every other invariant rests on this one.

## Main definitions

* `System.Coherent`, `System.coherent_of_reachable` — the invariant.
-/

namespace ReportTriage

/-- What the session holds in the start window: nothing in `create_report`, and the report as it
was reset in `reprocess_report`, which therefore never selects it again. -/
def Endpoint.Holds : Endpoint → RequestPc → Prop
  | create _ _, .start _ held => held = none
  | reprocess _, .start reportId held => ∃ loaded, held = some loaded ∧ loaded.id = reportId ∧
      loaded.status = ReportStatus.queued.value
  | reprocess _, .loadStartFailed _ _ => False
  | reprocess _, .markStartFailed loaded _ => loaded.status = ReportStatus.queued.value
  | _, _ => True

namespace System

/-- The parties agree with the stores and with each other. -/
structure Coherent (s : System) : Prop where
  /-- An uncommitted row was made by a `POST /reports`, from its own arguments. -/
  commit : ∀ (q : ℕ) (e : Endpoint) (row : Report), s.requests[q]? = some ⟨e, .commit row⟩ →
    ∃ payload reportId key now, e = .create payload key ∧
      row = createReport payload.stored reportId key now
  reset : ∀ (q : ℕ) (e : Endpoint) (loaded : Report), s.requests[q]? = some ⟨e, .reset loaded⟩ →
    e = .reprocess loaded.id ∧ (s.getReport loaded.id).isSome
  /-- Between the commit of `queued` and the end of the start, the report is stored. -/
  window : ∀ (q : ℕ) (e : Endpoint) (pc : RequestPc) (r : String),
    s.requests[q]? = some ⟨e, pc⟩ → pc.startWindow = some r →
    (∀ reportId, e = .reprocess reportId → reportId = r) ∧ (s.getReport r).isSome
  holds : ∀ (q : ℕ) (e : Endpoint) (pc : RequestPc), s.requests[q]? = some ⟨e, pc⟩ → e.Holds pc
  attempt : ∀ (i : ℕ) (x : Attempt), s.attempts[i]? = some x → ∃ run, s.runs[x.run]? = some run ∧
    ∀ r status, x.activity.statusWrite = some (r, status) → r = run.reportId
  upsert : ∀ (i : ℕ) (x : Attempt) (run : Run) (call : UpsertCall) (v : Value),
    s.attempts[i]? = some x → s.runs[x.run]? = some run →
    x.activity.upsertCall = some (call, v) → call.reportId = run.reportId
  loaded : ∀ (i : ℕ) (x : Attempt) (row : Report), s.attempts[i]? = some x → x.phase = .loaded row →
    (∃ status, x.activity.statusWrite = some (row.id, status)) ∧ (s.getReport row.id).isSome
  /-- The attempt a run waits for is its latest, of the activity awaited. -/
  outstanding : ∀ (ρ : ℕ) (run : Run) (i : ℕ), s.runs[ρ]? = some run → run.outstanding = some i →
    (∃ x call, s.attempts[i]? = some x ∧ x.run = ρ ∧ run.pc.call run.reportId = some call ∧
      x.activity = call.activity) ∧
      ∀ (j : ℕ) (y : Attempt), s.attempts[j]? = some y → y.run = ρ → j ≤ i

theorem coherent_empty : Coherent empty := by
  constructor <;> simp [empty]

/-- The row an attempt has loaded is that of the report it is to mark. -/
theorem Coherent.loaded_id {s : System} (h : Coherent s) {i : ℕ} {x : Attempt} {loaded : Report}
    {r : String} {status : ReportStatus} (hx : s.attempts[i]? = some x)
    (hp : x.phase = .loaded loaded) (hw : x.activity.statusWrite = some (r, status)) :
    loaded.id = r := by
  obtain ⟨⟨status', hw'⟩, -⟩ := h.loaded i x loaded hx hp
  rw [hw] at hw'
  cases hw'
  rfl

section
variable [UnicodeData] {s s' : System} {a : Action}

theorem Coherent.commit_step (h : Coherent s) (he : Effect s a s') {q : ℕ} {e : Endpoint}
    {row : Report} (hq : s'.requests[q]? = some ⟨e, .commit row⟩) :
    ∃ payload reportId key now, e = .create payload key ∧
      row = createReport payload.stored reportId key now := by
  rcases he.request hq with hold | ⟨-, -, hpc⟩ | ⟨pc, -, hstep⟩
  · exact h.commit q e row hold
  · rcases firstPc_eq e with h | h | h <;> cases hpc.trans h
  · obtain ⟨payload, key, reportId, now, -, he, -, hrow, -⟩ := hstep.to_commit
    exact ⟨payload, reportId, key, now, he, hrow⟩

theorem Coherent.reset_step (h : Coherent s) (he : Effect s a s') {q : ℕ} {e : Endpoint}
    {loaded : Report} (hq : s'.requests[q]? = some ⟨e, .reset loaded⟩) :
    e = .reprocess loaded.id ∧ (s'.getReport loaded.id).isSome := by
  rcases he.request hq with hold | ⟨-, -, hpc⟩ | ⟨pc, -, hstep⟩
  · exact (h.reset q e loaded hold).imp_right he.isSome_getReport
  · rcases firstPc_eq e with h | h | h <;> cases hpc.trans h
  · obtain ⟨-, hendpoint, -, hget⟩ := hstep.to_reset
    exact ⟨hendpoint, he.isSome_getReport (by rw [hget]; rfl)⟩

theorem Coherent.holds_step (h : Coherent s) (he : Effect s a s') {q : ℕ} {e : Endpoint}
    {pc' : RequestPc} (hq : s'.requests[q]? = some ⟨e, pc'⟩) : e.Holds pc' := by
  rcases he.request hq with hold | ⟨-, -, rfl⟩ | ⟨pc, hold, hstep⟩
  · exact h.holds q e pc' hold
  · rcases e with ⟨payload, _ | key⟩ | reportId <;> trivial
  · cases hwindow : pc'.startWindow with
    | none => cases e <;> cases pc' <;> trivial
    | some r =>
      rcases hstep.to_window (by rw [hwindow]; rfl) with ⟨row, rfl, rfl, rfl⟩ |
        ⟨loaded, now, rfl, rfl, rfl⟩ | ⟨reportId, held, cause, outcome, rfl, rfl, rfl, -⟩ |
        ⟨reportId, cause, row, rfl, rfl, hget, rfl⟩
      · obtain ⟨payload, reportId, key, now, rfl, rfl⟩ := h.commit q _ _ hold
        rfl
      · obtain ⟨rfl, -⟩ := h.reset q _ _ hold
        exact ⟨_, rfl, rfl, rfl⟩
      · have hholds := h.holds q _ _ hold
        cases e with
        | create payload key =>
          obtain rfl : held = none := hholds
          trivial
        | reprocess r =>
          obtain ⟨loaded, rfl, -, hstatus⟩ := hholds
          exact hstatus
      · have hholds := h.holds q _ _ hold
        cases e with
        | create payload key => trivial
        | reprocess r => exact hholds.elim

omit [UnicodeData] in
/-- The report of a failed start is that of the start. -/
theorem Endpoint.Holds.startWindow {e : Endpoint} {reportId cause : String} {held : Option Report}
    (h : e.Holds (.start reportId held)) :
    (RequestPc.startFailed reportId cause held).startWindow = some reportId := by
  cases e with
  | create payload key =>
    obtain rfl : held = none := h
    rfl
  | reprocess r =>
    obtain ⟨loaded, rfl, rfl, -⟩ := h
    rfl

omit [UnicodeData] in
/-- A request that is in the start window of a report has just committed it as queued, or was in
the window before. -/
theorem Coherent.to_window (h : Coherent s) {q : ℕ} {e : Endpoint} {pc pc' : RequestPc} {r : String}
    (hold : s.requests[q]? = some ⟨e, pc⟩) (hstep : RequestStep s q a e pc pc')
    (hpc' : pc'.startWindow = some r) :
    (∃ row, a = .commitInsert q false ∧ pc = .commit row ∧ row.id = r ∧ pc' = .start r none) ∨
    (∃ loaded now, a = .commitReset q now false ∧ pc = .reset loaded ∧ loaded.id = r ∧
      pc' = .start r (some (loaded.assignStatus .queued now))) ∨
    (∃ held outcome, a = .start q outcome ∧ outcome ≠ .accepted ∧ pc = .start r held) ∨
    ∃ cause, a = .loadStartFailed q ∧ pc = .loadStartFailed r cause := by
  rcases hstep.to_window (by rw [hpc']; rfl) with ⟨row, rfl, rfl, rfl⟩ |
    ⟨loaded, now, rfl, rfl, rfl⟩ | ⟨reportId, held, cause, outcome, rfl, rfl, rfl, houtcome⟩ |
    ⟨reportId, cause, row, rfl, rfl, hget, rfl⟩
  · cases hpc'
    exact .inl ⟨row, rfl, rfl, rfl, rfl⟩
  · cases hpc'
    exact .inr (.inl ⟨loaded, now, rfl, rfl, rfl, rfl⟩)
  · rw [Endpoint.Holds.startWindow (h.holds q _ _ hold)] at hpc'
    cases hpc'
    refine .inr (.inr (.inl ⟨held, outcome, rfl, ?_, rfl⟩))
    rintro rfl
    simp at houtcome
  · cases hpc'
    obtain rfl : row.id = reportId := (getReport_eq_some hget).2
    exact .inr (.inr (.inr ⟨cause, rfl, rfl⟩))

theorem Coherent.window_step (h : Coherent s) (he : Effect s a s') {q : ℕ} {e : Endpoint}
    {pc' : RequestPc} {r : String} (hq : s'.requests[q]? = some ⟨e, pc'⟩)
    (hpc' : pc'.startWindow = some r) :
    (∀ reportId, e = .reprocess reportId → reportId = r) ∧ (s'.getReport r).isSome := by
  rcases he.request hq with hold | ⟨-, -, rfl⟩ | ⟨pc, hold, hstep⟩
  · exact (h.window q e pc' r hold hpc').imp_right he.isSome_getReport
  · rcases firstPc_eq e with h | h | h <;> rw [h] at hpc' <;> cases hpc'
  · rcases h.to_window hold hstep hpc' with ⟨row, rfl, rfl, rfl, -⟩ |
      ⟨loaded, now, rfl, rfl, rfl, -⟩ | ⟨held, outcome, -, -, rfl⟩ | ⟨cause, -, rfl⟩
    · obtain ⟨payload, reportId, key, now, rfl, -⟩ := h.commit q _ _ hold
      obtain ⟨-, happend, -⟩ := he.of_commitInsert hold
      refine ⟨by rintro _ ⟨⟩, isSome_getReport.mpr ⟨row, ?_, rfl⟩⟩
      rw [happend]
      exact List.mem_append_right _ (List.mem_singleton.mpr rfl)
    · obtain ⟨rfl, hsome⟩ := h.reset q _ _ hold
      refine ⟨?_, he.isSome_getReport hsome⟩
      rintro _ ⟨⟩
      rfl
    · exact (h.window q e _ r hold rfl).imp_right he.isSome_getReport
    · exact (h.window q e _ r hold rfl).imp_right he.isSome_getReport

theorem Coherent.attempt_step (h : Coherent s) (he : Effect s a s') {i : ℕ} {y : Attempt}
    (hy : s'.attempts[i]? = some y) : ∃ run, s'.runs[y.run]? = some run ∧
      ∀ r status, y.activity.statusWrite = some (r, status) → r = run.reportId := by
  have hkeep : ∀ {x : Attempt}, x.run = y.run → x.activity = y.activity →
      (∃ run, s.runs[x.run]? = some run ∧
        ∀ r status, x.activity.statusWrite = some (r, status) → r = run.reportId) →
      ∃ run, s'.runs[y.run]? = some run ∧
        ∀ r status, y.activity.statusWrite = some (r, status) → r = run.reportId := by
    rintro x hrun hact ⟨run, hρ, hid⟩
    obtain ⟨run', hρ', hid'⟩ := he.run_kept hρ
    refine ⟨run', hrun ▸ hρ', ?_⟩
    intro r status hw
    rw [hid', hid r status (hact ▸ hw)]
  rcases he.attempt hy with hold | ⟨-, ρ, run, call, -, hρ, -, hcall, rfl⟩ | ⟨x, p, hx, rfl, -⟩
  · exact hkeep rfl rfl (h.attempt i y hold)
  · refine hkeep (x := ⟨ρ, call.activity, .running⟩) rfl rfl ⟨run, hρ, fun r status hw => ?_⟩
    exact Run.reportId_of_call hcall hw
  · exact hkeep rfl rfl (h.attempt i x hx)

theorem Coherent.upsert_step (h : Coherent s) (he : Effect s a s') {i : ℕ} {y : Attempt}
    {run' : Run} {call : UpsertCall} {v : Value} (hy : s'.attempts[i]? = some y)
    (hrun' : s'.runs[y.run]? = some run') (hc : y.activity.upsertCall = some (call, v)) :
    call.reportId = run'.reportId := by
  have hkeep : ∀ x, s.attempts[i]? = some x → x.run = y.run → x.activity = y.activity →
      call.reportId = run'.reportId := by
    intro x hx hrun hact
    obtain ⟨run, hρ, -⟩ := h.attempt i x hx
    obtain ⟨run'', hρ', hid⟩ := he.run_kept hρ
    rw [hrun, hrun'] at hρ'
    cases hρ'
    rw [hid, h.upsert i x run call v hx hρ (hact ▸ hc)]
  rcases he.attempt hy with hold | ⟨-, ρ, run, c, -, hρ, -, hcall, rfl⟩ | ⟨x, p, hx, rfl, -⟩
  · exact hkeep y hold rfl rfl
  · obtain ⟨run'', hρ', hid⟩ := he.run_kept hρ
    rw [hrun'] at hρ'
    cases hρ'
    rw [hid, Run.reportId_of_upsertCall hcall hc]
  · exact hkeep x hx rfl rfl

theorem Coherent.loaded_step (h : Coherent s) (he : Effect s a s') {i : ℕ} {y : Attempt}
    {row : Report} (hy : s'.attempts[i]? = some y) (hp : y.phase = .loaded row) :
    (∃ status, y.activity.statusWrite = some (row.id, status)) ∧
      (s'.getReport row.id).isSome := by
  rcases he.attempt hy with hold | ⟨-, ρ, run, call, -, -, -, -, rfl⟩ | ⟨x, p, hx, rfl, hstep⟩
  · exact (h.loaded i y row hold hp).imp_right he.isSome_getReport
  · cases hp
  · obtain rfl : p = .loaded row := hp
    obtain ⟨-, -, hw, hget⟩ := hstep.to_loaded
    exact ⟨hw, he.isSome_getReport (by rw [hget]; rfl)⟩

theorem Coherent.outstanding_step (h : Coherent s) (he : Effect s a s') {ρ i : ℕ} {run' : Run}
    (hρ' : s'.runs[ρ]? = some run') (hout : run'.outstanding = some i) :
    (∃ x call, s'.attempts[i]? = some x ∧ x.run = ρ ∧ run'.pc.call run'.reportId = some call ∧
      x.activity = call.activity) ∧
      ∀ (j : ℕ) (y : Attempt), s'.attempts[j]? = some y → y.run = ρ → j ≤ i := by
  -- A run that goes on waiting keeps its attempt, and nobody schedules another one for it.
  have hkeep : ∀ run, s.runs[ρ]? = some run → run.outstanding = some i → run'.pc = run.pc →
      run'.reportId = run.reportId →
      (∃ x call, s'.attempts[i]? = some x ∧ x.run = ρ ∧ run'.pc.call run'.reportId = some call ∧
        x.activity = call.activity) ∧
        ∀ (j : ℕ) (y : Attempt), s'.attempts[j]? = some y → y.run = ρ → j ≤ i := by
    intro run hρ hwaits hpc hid
    obtain ⟨⟨x, call, hx, hrun, hcall, hact⟩, hlast⟩ := h.outstanding ρ run i hρ hwaits
    obtain ⟨p, hx'⟩ := he.attempt_kept hx
    refine ⟨⟨_, call, hx', hrun, by rw [hpc, hid, hcall], hact⟩, ?_⟩
    intro j y hy hyrun
    rcases he.attempt hy with hold | ⟨-, σ, run₀, call₀, -, hσ, hfree, -, rfl⟩ | ⟨z, p, hz, rfl, -⟩
    · exact hlast j y hold hyrun
    · obtain rfl : σ = ρ := hyrun
      rw [hρ] at hσ
      cases hσ
      rw [hwaits] at hfree
      cases hfree
    · exact hlast j z hz hyrun
  cases he.run hρ' with
  | same hρ => exact hkeep run' hρ hout rfl rfl
  | started => cases hout
  | terminated outcome hq hreaches hρ hopen hid => exact hkeep _ hρ hout rfl rfl
  | @scheduled run call hρ hopen hcall hfree hattempts =>
    cases hout
    rw [hattempts]
    refine ⟨⟨_, call, List.getElem?_concat_length .., rfl, hcall, rfl⟩, fun j y hy _ => ?_⟩
    have := (List.getElem?_eq_some_iff.mp hy).1
    simp only [List.length_append, List.length_singleton] at this
    omega
  | @moved a run _ hρ hopen hm hattempts =>
    obtain ⟨k, hwaits⟩ : ∃ k, run.outstanding = some k := by
      cases hm with
      | succeeded hwaits | failed hwaits | timedOut hwaits => exact ⟨_, hwaits⟩
    obtain ⟨⟨x, call, -, -, hcall, -⟩, -⟩ := h.outstanding ρ run k hρ hwaits
    cases hm with
    | succeeded _ _ _ hrun =>
      obtain ⟨pc, -, rfl⟩ := Option.map_eq_some_iff.mp hrun
      cases hout
    | failed | timedOut =>
      rw [Run.outstanding_attemptFailed hcall] at hout
      cases hout

/-- **The invariant holds in every reachable state.** -/
theorem Coherent.step (h : Coherent s) (he : Effect s a s') : Coherent s' where
  commit _ _ _ hq := h.commit_step he hq
  reset _ _ _ hq := h.reset_step he hq
  window _ _ _ _ hq hpc := h.window_step he hq hpc
  holds _ _ _ hq := h.holds_step he hq
  attempt _ _ hx := h.attempt_step he hx
  upsert _ _ _ _ _ hx hrun hc := h.upsert_step he hx hrun hc
  loaded _ _ _ hx hp := h.loaded_step he hx hp
  outstanding _ _ _ hρ hout := h.outstanding_step he hρ hout

/-- A status other than `queued` is new only by a write of it. -/
theorem Coherent.status_new (h : Coherent s) (he : Effect s a s') {r : String} {st : ReportStatus}
    (hst : s'.status r = some st.value) (hne : st ≠ .queued) :
    s.status r = some st.value ∨
      ∃ loaded, s.statusWrite a = some (loaded, st) ∧ loaded.id = r := by
  rcases he.status r with hsame | ⟨q, e, row, raises, -, hq, -, -, hnew⟩ |
    ⟨loaded, status, hw, hid, hcolumn⟩
  · exact .inl (hsame ▸ hst)
  · obtain ⟨payload, reportId, key, now, -, rfl⟩ := h.commit q e row hq
    exact (hne (ReportStatus.value_inj.mp (Option.some.inj (hst.symm.trans hnew)))).elim
  · rw [hcolumn] at hst
    obtain ⟨stored, hstored, hst⟩ := Option.map_eq_some_iff.mp hst
    rcases @WriteBack.column_eq_or _ _ loaded.status status.value stored with hkept | ⟨hwritten, -⟩
    · exact .inl (by rw [hstored, ← hst, hkept])
    · rw [hwritten, ReportStatus.value_inj] at hst
      exact .inr ⟨loaded, hst ▸ hw, hid⟩

theorem coherent_of_reachable (h : machine.Reachable s) : Coherent s :=
  h.invariant (fun h0 => h0 ▸ coherent_empty) fun _ hs hstep => hs.step (effect_of_step hstep)

end
end System

end ReportTriage

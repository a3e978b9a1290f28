import ReportTriage.Coherence

/-!
# Idempotency keys

`POST /reports` looks the key up, inserts when it finds nothing, and looks it up again when
the INSERT fails. The unique constraints decide every race; what is left to show is that a
request which did not insert never goes on to the start call, and that it answers with the row
that holds the key.

## Main definitions

* `System.Intake`, `System.intake_of_reachable` — the invariant of rows, pending rows and
  answers.
* `System.idempotency_key` — one row, one answer and one start for each key.
-/

namespace ReportTriage

/-- The request an action belongs to. -/
def Action.request : Action → Option ℕ
  | lookup q | insert q _ _ | commitInsert q _ | relookup q | loadForReprocess q
  | commitReset q _ _ | start q _ | loadStartFailed q | commitStartFailed q _ | dropStartFailed q
  | fail q | stop q => some q
  | _ => none

/-- The request is a `POST /reports` with this key. -/
def Endpoint.carries (key : Option String) : Endpoint → Bool
  | create _ key' => key' = key
  | reprocess _ => false

namespace System

/-- Request `q` is a `POST /reports` with this key. -/
def carries (s : System) (key : Option String) (q : ℕ) : Bool :=
  s.requests[q]?.any fun r => r.endpoint.carries key

/-- The requests that have committed an INSERT, latest first. -/
def inserters (s : System) : List ℕ :=
  s.history.filterMap fun
    | .inserted q _ => some q
    | _ => none

/-- The requests that have called `start_workflow`, latest first. -/
def startCallers (s : System) : List ℕ :=
  s.history.filterMap fun
    | .startCalled q _ _ => some q
    | _ => none

theorem mem_inserters {s : System} {q : ℕ} :
    q ∈ s.inserters ↔ ∃ reportId, .inserted q reportId ∈ s.history := by
  simp only [inserters, List.mem_filterMap]
  constructor
  · rintro ⟨ev, hev, h⟩
    cases ev with
    | inserted q' reportId => cases h; exact ⟨reportId, hev⟩
    | _ => cases h
  · rintro ⟨reportId, hev⟩
    exact ⟨_, hev, rfl⟩

theorem mem_startCallers {s : System} {q : ℕ} :
    q ∈ s.startCallers ↔ ∃ reportId outcome, .startCalled q reportId outcome ∈ s.history := by
  simp only [startCallers, List.mem_filterMap]
  constructor
  · rintro ⟨ev, hev, h⟩
    cases ev with
    | startCalled q' reportId outcome => cases h; exact ⟨reportId, outcome, hev⟩
    | _ => cases h
  · rintro ⟨reportId, outcome, hev⟩
    exact ⟨_, hev, rfl⟩

/-- A committed row has this id and this key. -/
def HasRow (s : System) (reportId : String) (key : Option String) : Prop :=
  ∃ row ∈ s.reports, row.id = reportId ∧ row.idempotencyKey = key

/-- The rows, the pending rows and the answers of `POST /reports`. -/
structure Intake (s : System) : Prop where
  distinct : s.reports.Pairwise fun r r' => ¬ r.Collides r'
  free : ∀ (q : ℕ) (e : Endpoint) (row : Report), s.requests[q]? = some ⟨e, .commit row⟩ →
    ∀ r ∈ s.reports, ¬ r.Collides row
  apart : ∀ (q q' : ℕ) (e e' : Endpoint) (row row' : Report), q ≠ q' →
    s.requests[q]? = some ⟨e, .commit row⟩ → s.requests[q']? = some ⟨e', .commit row'⟩ →
    ¬ row.Collides row'
  /-- Whoever has inserted is past the INSERT, and its row is there. -/
  inserted : ∀ (q : ℕ) (reportId : String), .inserted q reportId ∈ s.history →
    ∃ payload key pc, s.requests[q]? = some ⟨.create payload key, pc⟩ ∧
      pc.isBeforeStart = false ∧ s.HasRow reportId key
  rooted : ∀ row ∈ s.reports, ∃ q, .inserted q row.id ∈ s.history
  /-- No two requests insert the same row. -/
  inserter : ∀ (q q' : ℕ) (reportId : String), .inserted q reportId ∈ s.history →
    .inserted q' reportId ∈ s.history → q = q'
  insertsOnce : s.inserters.Nodup
  /-- Between its INSERT and the end of its start a request is about the row it inserted. -/
  window : ∀ (q : ℕ) (payload : ReportCreateRequest) (key : Option String) (pc : RequestPc)
    (r : String), s.requests[q]? = some ⟨.create payload key, pc⟩ →
    pc.startWindow = some r → .inserted q r ∈ s.history
  /-- Whoever has called `start_workflow` is past that call, and has inserted. -/
  called : ∀ (q : ℕ) (reportId : String) (outcome : StartOutcome),
    .startCalled q reportId outcome ∈ s.history → ∃ e pc, s.requests[q]? = some ⟨e, pc⟩ ∧
      pc.isBeforeStart = false ∧ (∀ r held, pc ≠ .start r held) ∧
      ∀ payload key, e = .create payload key → .inserted q reportId ∈ s.history
  callsOnce : s.startCallers.Nodup
  /-- An answer names a row that holds the key; without a key, the row inserted. -/
  answered : ∀ (q : ℕ) (payload : ReportCreateRequest) (key : Option String)
    (response : Response) (reportId : String),
    s.requests[q]? = some ⟨.create payload key, .done response⟩ →
    response.reportId = some reportId → s.HasRow reportId key ∧
      (key = none → .inserted q reportId ∈ s.history)

theorem intake_empty : Intake empty := by
  constructor <;> simp [empty, inserters, startCallers]

section
variable [UnicodeData] {s s' : System} {a : Action}

theorem Effect.hasRow (he : Effect s a s') {reportId : String} {key : Option String}
    (h : s.HasRow reportId key) : s'.HasRow reportId key := by
  obtain ⟨row, hrow, rfl, rfl⟩ := h
  obtain ⟨row', hrow', hsame⟩ := he.row_kept hrow
  exact ⟨row', hrow', hsame.id, hsame.idempotencyKey⟩

/-! ### One step -/

theorem Intake.distinct_step (h : Intake s) (he : Effect s a s') :
    s'.reports.Pairwise fun r r' => ¬ r.Collides r' := by
  rcases he.reports with ⟨-, hsame⟩ | ⟨-, q, e, row, raises, -, hq, happend⟩ |
    ⟨loaded, status, now, -, hcommit⟩
  · rw [hsame]; exact h.distinct
  · rw [happend, List.pairwise_append]
    refine ⟨h.distinct, List.pairwise_singleton .., ?_⟩
    intro r hr r' hr'
    rw [List.mem_singleton.mp hr']
    exact h.free q e row hq r hr
  · rw [hcommit, commitStatus, List.pairwise_map]
    refine h.distinct.imp fun hne => ?_
    rwa [Report.SameContent.collides (Report.sameContent_writeBack ..)
      (Report.sameContent_writeBack ..)]

theorem Intake.free_step (h : Intake s) (he : Effect s a s') {q : ℕ} {e : Endpoint} {row : Report}
    (hq : s'.requests[q]? = some ⟨e, .commit row⟩) : ∀ r ∈ s'.reports, ¬ r.Collides row := by
  -- The row is free of every row of `reports` before the step, and no other row comes with it.
  have hbefore : (∀ r ∈ s.reports, ¬ r.Collides row) ∧
      (s.requests[q]? = some ⟨e, .commit row⟩ ∨ ∃ id now, a = .insert q id now) := by
    rcases he.request hq with hold | ⟨-, -, hpc⟩ | ⟨pc, -, hstep⟩
    · exact ⟨h.free q e row hold, .inl hold⟩
    · rcases firstPc_eq e with h | h | h <;> cases hpc.trans h
    · obtain ⟨payload, key, reportId, now, ha, -, -, -, hfree, -⟩ := hstep.to_commit
      exact ⟨hfree, .inr ⟨reportId, now, ha⟩⟩
  intro r hr
  rcases he.reports with ⟨-, hsame⟩ | ⟨-, p, f, new, raises, rfl, hp, happend⟩ |
    ⟨loaded, status, now, -, hcommit⟩
  · exact hbefore.1 r (hsame ▸ hr)
  · rw [happend] at hr
    rcases List.mem_append.mp hr with hr | hr
    · exact hbefore.1 r hr
    · obtain rfl := List.mem_singleton.mp hr
      rcases hbefore.2 with hold | ⟨id, now, ha⟩
      · refine h.apart p q f e _ row (fun hpq => ?_) hp hold
        subst hpq
        obtain ⟨hq', -⟩ := he.of_commitInsert hp
        rw [hq] at hq'
        cases raises <;> cases hq'
      · cases ha
  · rw [hcommit] at hr
    obtain ⟨r₀, hr₀, rfl⟩ := List.mem_map.mp hr
    rw [Report.SameContent.collides (Report.sameContent_writeBack ..) (.refl row)]
    exact hbefore.1 r₀ hr₀

theorem Intake.apart_step (h : Intake s) (he : Effect s a s') {q q' : ℕ} {e e' : Endpoint}
    {row row' : Report} (hne : q ≠ q') (hq : s'.requests[q]? = some ⟨e, .commit row⟩)
    (hq' : s'.requests[q']? = some ⟨e', .commit row'⟩) : ¬ row.Collides row' := by
  have hview : ∀ {i : ℕ} {f : Endpoint} {new : Report},
      s'.requests[i]? = some ⟨f, .commit new⟩ → s.requests[i]? = some ⟨f, .commit new⟩ ∨
        (∃ id now, a = .insert i id now) ∧ ∀ r ∈ s.requests, ¬ r.pc.Blocks new := by
    intro i f new hi
    rcases he.request hi with hold | ⟨-, -, hpc⟩ | ⟨pc, -, hstep⟩
    · exact .inl hold
    · rcases firstPc_eq f with h | h | h <;> cases hpc.trans h
    · obtain ⟨payload, key, reportId, now, ha, -, -, -, -, hwait⟩ := hstep.to_commit
      exact .inr ⟨⟨reportId, now, ha⟩, hwait⟩
  rcases hview hq with hold | ⟨⟨id, now, rfl⟩, hwait⟩
  · rcases hview hq' with hold' | ⟨-, hwait'⟩
    · exact h.apart q q' e e' row row' hne hold hold'
    · exact hwait' _ (List.mem_of_getElem? hold)
  · rcases hview hq' with hold' | ⟨⟨id', now', ha⟩, -⟩
    · exact fun hc => hwait _ (List.mem_of_getElem? hold') hc.symm
    · cases ha
      exact absurd rfl hne

theorem Intake.inserted_step (h : Intake s) (hco : Coherent s) (he : Effect s a s') {q : ℕ}
    {reportId : String} (hev : .inserted q reportId ∈ s'.history) :
    ∃ payload key pc, s'.requests[q]? = some ⟨.create payload key, pc⟩ ∧
      pc.isBeforeStart = false ∧ s'.HasRow reportId key := by
  rcases he.event hev with hold | hnew
  · obtain ⟨payload, key, pc, hq, hpc, hrow⟩ := h.inserted q reportId hold
    obtain ⟨pc', hq', rfl | hstep⟩ := he.request_next hq
    · exact ⟨payload, key, _, hq', hpc, he.hasRow hrow⟩
    · exact ⟨payload, key, pc', hq', (hstep.isBeforeStart hpc).1, he.hasRow hrow⟩
  · cases hnew with
    | @inserted _ e row raises hq =>
      obtain ⟨payload, reportId, key, now, rfl, rfl⟩ := hco.commit q e row hq
      obtain ⟨hq', happend, -⟩ := he.of_commitInsert hq
      refine ⟨payload, key, _, hq', by cases raises <;> rfl, _, ?_, rfl, rfl⟩
      rw [happend]
      exact List.mem_append_right _ (List.mem_singleton.mpr rfl)

theorem Intake.rooted_step (h : Intake s) (he : Effect s a s') {row : Report}
    (hrow : row ∈ s'.reports) : ∃ q, .inserted q row.id ∈ s'.history := by
  rcases he.reports with ⟨-, hsame⟩ | ⟨-, q, e, new, raises, rfl, hq, happend⟩ |
    ⟨loaded, status, now, -, hcommit⟩
  · obtain ⟨q, hev⟩ := h.rooted row (hsame ▸ hrow)
    exact ⟨q, he.event_kept hev⟩
  · rw [happend] at hrow
    rcases List.mem_append.mp hrow with hrow | hrow
    · obtain ⟨q, hev⟩ := h.rooted row hrow
      exact ⟨q, he.event_kept hev⟩
    · obtain rfl := List.mem_singleton.mp hrow
      obtain ⟨-, -, hcons⟩ := he.of_commitInsert hq
      exact ⟨q, hcons ▸ List.mem_cons_self⟩
  · rw [hcommit] at hrow
    obtain ⟨row₀, hrow₀, rfl⟩ := List.mem_map.mp hrow
    obtain ⟨q, hev⟩ := h.rooted row₀ hrow₀
    exact ⟨q, by rw [Report.id_writeBack]; exact he.event_kept hev⟩

theorem Intake.inserter_step (h : Intake s) (he : Effect s a s') {q q' : ℕ} {reportId : String}
    (hev : .inserted q reportId ∈ s'.history) (hev' : .inserted q' reportId ∈ s'.history) :
    q = q' := by
  -- A row about to be inserted has an id that no row has, so nobody has inserted it.
  have hfresh : ∀ {p p' : ℕ}, Logged s a (.inserted p reportId) →
      .inserted p' reportId ∈ s.history → False := by
    intro p p' hnew hold
    obtain ⟨-, -, -, -, -, row, hrow, hid, -⟩ := h.inserted p' reportId hold
    cases hnew with
    | inserted hq => exact h.free p _ _ hq row hrow (.inl hid)
  rcases he.event hev with hold | hnew <;> rcases he.event hev' with hold' | hnew'
  · exact h.inserter q q' reportId hold hold'
  · exact (hfresh hnew' hold).elim
  · exact (hfresh hnew hold').elim
  · have hactor : ∀ {p : ℕ}, Logged s a (.inserted p reportId) →
        ∃ raises, a = .commitInsert p raises := by
      rintro p ⟨⟩
      exact ⟨_, rfl⟩
    obtain ⟨raises, rfl⟩ := hactor hnew
    obtain ⟨raises', ha⟩ := hactor hnew'
    cases ha
    rfl

theorem Intake.insertsOnce_step (h : Intake s) (he : Effect s a s') : s'.inserters.Nodup := by
  rcases he.history with hsame | ⟨ev, hlogged, hcons⟩
  · rw [inserters, hsame]; exact h.insertsOnce
  · cases hlogged with
    | inserted hq =>
      rw [inserters, hcons]
      refine List.nodup_cons.mpr ⟨fun hmem => ?_, h.insertsOnce⟩
      obtain ⟨reportId, hold⟩ := mem_inserters.mp hmem
      obtain ⟨payload, key, pc, hq', hpc, -⟩ := h.inserted _ _ hold
      rw [hq] at hq'
      cases hq'
      cases hpc
    | reset | started | startFailed | marked =>
      rw [inserters, hcons]
      exact h.insertsOnce

theorem Intake.window_step (h : Intake s) (hco : Coherent s) (he : Effect s a s') {q : ℕ}
    {payload : ReportCreateRequest} {key : Option String} {pc' : RequestPc} {r : String}
    (hq : s'.requests[q]? = some ⟨.create payload key, pc'⟩)
    (hpc' : pc'.startWindow = some r) : .inserted q r ∈ s'.history := by
  rcases he.request hq with hold | ⟨-, -, rfl⟩ | ⟨pc, hold, hstep⟩
  · exact he.event_kept (h.window q payload key pc' r hold hpc')
  · cases key <;> cases hpc'
  · rcases hco.to_window hold hstep hpc' with ⟨row, rfl, rfl, rfl, -⟩ |
      ⟨loaded, now, rfl, rfl, -⟩ | ⟨held, outcome, -, -, rfl⟩ | ⟨cause, -, rfl⟩
    · obtain ⟨-, -, hcons⟩ := he.of_commitInsert hold
      exact hcons ▸ List.mem_cons_self
    · cases (hco.reset q _ _ hold).1
    · exact he.event_kept (h.window q payload key _ r hold rfl)
    · exact he.event_kept (h.window q payload key _ r hold rfl)

theorem Intake.called_step (h : Intake s) (he : Effect s a s') {q : ℕ} {reportId : String}
    {outcome : StartOutcome} (hev : .startCalled q reportId outcome ∈ s'.history) :
    ∃ e pc, s'.requests[q]? = some ⟨e, pc⟩ ∧ pc.isBeforeStart = false ∧
      (∀ r held, pc ≠ .start r held) ∧
      ∀ payload key, e = .create payload key → .inserted q reportId ∈ s'.history := by
  rcases he.event hev with hold | hnew
  · obtain ⟨e, pc, hq, hpc, hstart, hins⟩ := h.called q reportId outcome hold
    obtain ⟨pc', hq', rfl | hstep⟩ := he.request_next hq
    · exact ⟨e, _, hq', hpc, hstart, fun p k hc => he.event_kept (hins p k hc)⟩
    · obtain ⟨hbefore, hnostart⟩ := hstep.isBeforeStart hpc
      exact ⟨e, pc', hq', hbefore, hnostart, fun p k hc => he.event_kept (hins p k hc)⟩
  · cases hnew with
    | started hq =>
      obtain ⟨pc', hq', hstep, -⟩ := he.of_start hq
      obtain ⟨hbefore, hnostart⟩ := hstep.isBeforeStart rfl
      refine ⟨_, pc', hq', hbefore, hnostart, ?_⟩
      intro payload key hc
      subst hc
      exact he.event_kept (h.window q payload key _ _ hq rfl)

theorem Intake.callsOnce_step (h : Intake s) (he : Effect s a s') : s'.startCallers.Nodup := by
  rcases he.history with hsame | ⟨ev, hlogged, hcons⟩
  · rw [startCallers, hsame]; exact h.callsOnce
  · cases hlogged with
    | started hq =>
      rw [startCallers, hcons]
      refine List.nodup_cons.mpr ⟨fun hmem => ?_, h.callsOnce⟩
      obtain ⟨reportId, outcome, hold⟩ := mem_startCallers.mp hmem
      obtain ⟨e, pc, hq', -, hstart, -⟩ := h.called _ _ _ hold
      rw [hq] at hq'
      cases hq'
      exact hstart _ _ rfl
    | inserted | reset | startFailed | marked =>
      rw [startCallers, hcons]
      exact h.callsOnce

theorem Intake.answered_step (h : Intake s) (he : Effect s a s') {q : ℕ}
    {payload : ReportCreateRequest} {key : Option String} {response : Response}
    {reportId : String} (hq : s'.requests[q]? = some ⟨.create payload key, .done response⟩)
    (hr : response.reportId = some reportId) :
    s'.HasRow reportId key ∧ (key = none → .inserted q reportId ∈ s'.history) := by
  -- An answer out of the start window names the row this request inserted.
  have hown : ∀ {pc : RequestPc} {r : String},
      s.requests[q]? = some ⟨.create payload key, pc⟩ → pc.startWindow = some r →
      s'.HasRow r key ∧ (key = none → .inserted q r ∈ s'.history) := by
    intro pc r hold hpc
    have hins := h.window q payload key pc r hold hpc
    obtain ⟨payload', key', pc₀, hq₀, -, hrow⟩ := h.inserted q r hins
    rw [hold] at hq₀
    cases hq₀
    exact ⟨he.hasRow hrow, fun _ => he.event_kept hins⟩
  have hfound : ∀ {k : String} {existing : Report},
      s.findReportByIdempotencyKey k = some existing → s'.HasRow existing.id (some k) := by
    intro k existing hfind
    exact he.hasRow ⟨existing, List.mem_of_find?_eq_some hfind, rfl,
      by simpa using List.find?_some hfind⟩
  rcases he.request hq with hold | ⟨-, -, hpc⟩ | ⟨pc, hold, hstep⟩
  · exact (h.answered q payload key response reportId hold hr).imp he.hasRow
      fun hins hk => he.event_kept (hins hk)
  · cases key <;> cases hpc
  · generalize hpc' : RequestPc.done response = pc' at hstep
    cases hstep with
    | moved hm =>
      cases hm <;> cases hpc' <;> try cases hr
      · rename_i hfind
        exact ⟨hfound hfind, nofun⟩
      · rename_i hfind
        exact ⟨hfound hfind, nofun⟩
      · exact hown hold rfl
      · rename_i hpc
        exact hown hold (startWindow_of_failedStart hpc)
    | inserted raises | reset now raises => cases raises <;> cases hpc'; cases hr
    | started | startFailed =>
      cases hpc'
      cases hr
      exact hown hold rfl
    | @notStarted _ _ _ held => cases held <;> cases hpc'

theorem Intake.step (h : Intake s) (hco : Coherent s) (he : Effect s a s') : Intake s' where
  distinct := h.distinct_step he
  free _ _ _ hq := h.free_step he hq
  apart _ _ _ _ _ _ hne hq hq' := h.apart_step he hne hq hq'
  inserted _ _ hev := h.inserted_step hco he hev
  rooted _ hrow := h.rooted_step he hrow
  inserter _ _ _ hev hev' := h.inserter_step he hev hev'
  insertsOnce := h.insertsOnce_step he
  window _ _ _ _ _ hq hpc := h.window_step hco he hq hpc
  called _ _ _ hev := h.called_step he hev
  callsOnce := h.callsOnce_step he
  answered _ _ _ _ _ hq hr := h.answered_step he hq hr

theorem intake_of_reachable (h : machine.Reachable s) : Intake s :=
  h.invariant (fun h0 => h0 ▸ intake_empty)
    fun hr hs hstep => hs.step (coherent_of_reachable hr) (effect_of_step hstep)

/-! ### The rows of a key -/

omit [UnicodeData] in
/-- A row is determined by its id, and by its key if it has one. -/
theorem Intake.eq_of_collides (h : Intake s) {r r' : Report} (hr : r ∈ s.reports)
    (hr' : r' ∈ s.reports) (hc : r.Collides r') : r = r' := by
  by_contra hne
  have : Std.Symm fun r r' : Report => ¬ r.Collides r' := ⟨fun _ _ h hc => h hc.symm⟩
  exact h.distinct.forall hr hr' hne hc

omit [UnicodeData] in
theorem Intake.length_filter_key_le (h : Intake s) (key : String) :
    (s.reports.filter fun r => r.idempotencyKey = some key).length ≤ 1 := by
  refine Slots.length_le_one_of_pairwise (h.distinct.sublist List.filter_sublist)
    fun r hr r' hr' hne => hne (.inr ?_)
  have hkey : r.idempotencyKey = some key := by simpa using (List.mem_filter.mp hr).2
  have hkey' : r'.idempotencyKey = some key := by simpa using (List.mem_filter.mp hr').2
  exact ⟨by rw [hkey]; rfl, by rw [hkey, hkey']⟩

omit [UnicodeData] in
/-- Two requests with one key that have both inserted are one request. -/
theorem Intake.eq_of_inserted (h : Intake s) {key : String} {q q' : ℕ} {r r' : String}
    (hev : .inserted q r ∈ s.history) (hev' : .inserted q' r' ∈ s.history)
    (hq : s.carries (some key) q = true) (hq' : s.carries (some key) q' = true) : q = q' := by
  have hrow : ∀ {p : ℕ} {t : String}, .inserted p t ∈ s.history →
      s.carries (some key) p = true → s.HasRow t (some key) := by
    intro p t hp hcarries
    obtain ⟨payload, key', pc, hreq, -, hrow⟩ := h.inserted p t hp
    simp only [carries, hreq, Option.any_some, Endpoint.carries, decide_eq_true_eq] at hcarries
    exact hcarries ▸ hrow
  obtain ⟨row, hmem, rfl, hkey⟩ := hrow hev hq
  obtain ⟨row', hmem', rfl, hkey'⟩ := hrow hev' hq'
  have heq := h.eq_of_collides hmem hmem' (.inr ⟨by rw [hkey]; rfl, by rw [hkey, hkey']⟩)
  exact h.inserter q q' row.id hev (heq ▸ hev')

omit [UnicodeData] in
theorem Intake.length_inserters_le (h : Intake s) (key : String) :
    (s.inserters.filter (s.carries (some key))).length ≤ 1 := by
  refine Slots.length_le_one_of_pairwise (h.insertsOnce.sublist List.filter_sublist)
    fun q hq q' hq' hne => hne ?_
  obtain ⟨hmem, hcarries⟩ := List.mem_filter.mp hq
  obtain ⟨hmem', hcarries'⟩ := List.mem_filter.mp hq'
  obtain ⟨r, hev⟩ := mem_inserters.mp hmem
  obtain ⟨r', hev'⟩ := mem_inserters.mp hmem'
  exact h.eq_of_inserted hev hev' hcarries hcarries'

omit [UnicodeData] in
theorem Intake.length_startCallers_le (h : Intake s) (key : String) :
    (s.startCallers.filter (s.carries (some key))).length ≤ 1 := by
  refine Slots.length_le_one_of_pairwise (h.callsOnce.sublist List.filter_sublist)
    fun q hq q' hq' hne => hne ?_
  -- Whoever calls `start_workflow` with the key has inserted with it.
  have hins : ∀ {p : ℕ}, p ∈ s.startCallers → s.carries (some key) p = true →
      ∃ r, .inserted p r ∈ s.history := by
    intro p hp hcarries
    obtain ⟨r, outcome, hev⟩ := mem_startCallers.mp hp
    obtain ⟨e, pc, hreq, -, -, hcreate⟩ := h.called p r outcome hev
    cases e with
    | create payload key' => exact ⟨r, hcreate payload key' rfl⟩
    | reprocess => simp [carries, hreq, Endpoint.carries] at hcarries
  obtain ⟨hmem, hcarries⟩ := List.mem_filter.mp hq
  obtain ⟨hmem', hcarries'⟩ := List.mem_filter.mp hq'
  obtain ⟨r, hev⟩ := hins hmem hcarries
  obtain ⟨r', hev'⟩ := hins hmem' hcarries'
  exact h.eq_of_inserted hev hev' hcarries hcarries'

omit [UnicodeData] in
theorem writeBack_of_ne {loaded row : Report} {status : ReportStatus} {now : Time}
    (h : row.id ≠ loaded.id) : loaded.writeBack status now row = row := if_neg h

/-- A step of a `POST /reports` leaves every row it has not inserted as it is; and every row, if
the request ends in an error. -/
theorem Intake.rows_of_create (h : Intake s) (hco : Coherent s)
    (hstep : machine.step s a = some s') {q : ℕ} {payload : ReportCreateRequest}
    {key : Option String} {pc : RequestPc} (ha : a.request = some q)
    (hq : s.requests[q]? = some ⟨.create payload key, pc⟩) :
    (∀ row ∈ s.reports, row ∈ s'.reports ∨ .inserted q row.id ∈ s.history) ∧
      ∀ w, machine.Path (fun _ _ => True) s' w →
        w.requests[q]? = some ⟨.create payload key, .done .serverError⟩ →
        s.reports <+: s'.reports := by
  have he := effect_of_step hstep
  rcases he.reports with ⟨-, hsame⟩ | ⟨-, p, e, new, raises, -, -, happend⟩ |
    ⟨loaded, status, now, hw, hcommit⟩
  · rw [hsame]
    exact ⟨fun row hrow => .inl hrow, fun _ _ _ => List.prefix_rfl⟩
  · rw [happend]
    exact ⟨fun row hrow => .inl (List.mem_append_left _ hrow), fun _ _ _ => List.prefix_append ..⟩
  · cases a with
    | commitReset p now' raises =>
      obtain rfl : p = q := Option.some.inj ha
      rw [statusWrite, hq] at hw
      cases pc with
      | reset loaded' => cases (hco.reset p _ _ hq).1
      | _ => cases hw
    | commitStartFailed p now' =>
      obtain rfl : p = q := Option.some.inj ha
      rw [statusWrite, hq] at hw
      cases pc with
      | markStartFailed loaded' cause =>
        obtain ⟨hq', hcommit'⟩ := he.of_commitStartFailed hq
        have hins := h.window p payload key _ _ hq rfl
        constructor
        · intro row hrow
          by_cases hid : row.id = loaded'.id
          · exact .inr (hid ▸ hins)
          · refine .inl ?_
            rw [hcommit', ← writeBack_of_ne hid]
            exact List.mem_map_of_mem hrow
        · intro w hw hdone
          rw [done_of_path hw hq'] at hdone
          cases hdone
      | _ => cases hw
    | exec => cases ha
    | _ => cases hw

/-- **Idempotency keys.** In every reachable state, that is under any interleaving of the
lookups, inserts, commits and rollbacks of any requests: at most one row holds a key; an answer
to a request with the key names that row; at most one of these requests has called
`start_workflow`, and at most one has inserted a row, where every row has been inserted by some
request; a request without a key is answered with a row that it alone has inserted; and a
request changes no row but one it has inserted, and none at all if it ends in an error. -/
theorem idempotency_key (hs : machine.Reachable s) :
    (∀ key, (s.reports.filter fun r => r.idempotencyKey = some key).length ≤ 1) ∧
    (∀ (q : ℕ) (payload : ReportCreateRequest) (key : String) (response : Response)
      (reportId : String),
      s.requests[q]? = some ⟨.create payload (some key), .done response⟩ →
      response.reportId = some reportId →
      ∃ row ∈ s.reports, row.id = reportId ∧ row.idempotencyKey = some key) ∧
    (∀ key, (s.startCallers.filter (s.carries (some key))).length ≤ 1) ∧
    ((∀ key, (s.inserters.filter (s.carries (some key))).length ≤ 1) ∧
      ∀ row ∈ s.reports, ∃ q, .inserted q row.id ∈ s.history) ∧
    (∀ (q : ℕ) (payload : ReportCreateRequest) (response : Response) (reportId : String),
      s.requests[q]? = some ⟨.create payload none, .done response⟩ →
      response.reportId = some reportId → s.HasRow reportId none ∧
        ∀ q', .inserted q' reportId ∈ s.history ↔ q' = q) ∧
    (∀ (a : Action) (s' : System) (q : ℕ) (payload : ReportCreateRequest) (key : Option String)
      (pc : RequestPc), machine.step s a = some s' → a.request = some q →
      s.requests[q]? = some ⟨.create payload key, pc⟩ →
      (∀ row ∈ s.reports, row ∈ s'.reports ∨ .inserted q row.id ∈ s.history) ∧
        ∀ w, machine.Path (fun _ _ => True) s' w →
          w.requests[q]? = some ⟨.create payload key, .done .serverError⟩ →
          s.reports <+: s'.reports) := by
  have h := intake_of_reachable hs
  refine ⟨h.length_filter_key_le, ?_, h.length_startCallers_le,
    ⟨h.length_inserters_le, h.rooted⟩, ?_, ?_⟩
  · intro q payload key response reportId hq hr
    exact (h.answered q payload _ response reportId hq hr).1
  · intro q payload response reportId hq hr
    obtain ⟨hrow, hins⟩ := h.answered q payload none response reportId hq hr
    exact ⟨hrow, fun q' => ⟨fun hev => h.inserter q' q reportId hev (hins rfl),
      fun heq => heq ▸ hins rfl⟩⟩
  · intro a s' q payload key pc hstep ha hq
    exact h.rows_of_create (coherent_of_reachable hs) hstep ha hq

end

/-- Two requests with one key: both find nothing, the second waits for the first to commit,
loses, and answers with the row of the first. -/
def keyRace : List Action :=
  [.arrive (.create Sample.payload (some "k")), .arrive (.create Sample.payload (some "k")),
    .lookup 0, .lookup 1, .insert 0 "r" 1, .commitInsert 0 false, .insert 1 "r'" 2, .relookup 1,
    .start 0 .accepted]

/-- After the race both requests are answered, and one row has the key. -/
theorem idempotency_key_keyRace : ∃ (_ : UnicodeData) (s : System), machine.Reachable s ∧
    (s.requests.all fun r => r.pc.isEnded) = true ∧ s.requests.length = 2 ∧
    (s.reports.filter fun r => r.idempotencyKey = some "k").length ≤ 1 := by
  let _ := asciiUnicode
  have hrun : ((machine.run empty keyRace).any fun s =>
      (s.requests.all fun r => r.pc.isEnded) && s.requests.length = 2) = true := by
    decide +kernel
  obtain ⟨s, hs, hp⟩ := Machine.Along.exists_of_runIf rfl hrun
  simp only [Bool.and_eq_true, decide_eq_true_eq] at hp
  exact ⟨_, s, hs, hp.1, hp.2, (idempotency_key hs).1 "k"⟩

end System

end ReportTriage

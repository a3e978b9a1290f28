import ReportTriage.Lib.Board
import ReportTriage.Postings
import ReportTriage.Publication

/-!
# Reports as cards on a board

What has become of a report is in four places: its classification, its queue item, and its two
kinds of messages. They are written by separate transactions, of activities of runs that may
overlap, be given up, and come again; the status is written by others still. Seen together they
make a board: a card for each report, which says what is stored of the request, is marked with the
status, and climbs as the four results come in, whoever brings them. What the stores hold can be
read off the card.

## Main definitions

* `System.milestones`, `System.board` — the board of a state.
* `triageRules` — which status may stand on which rung.
* `System.Displays` — what a card tells of the stores.
* `System.refines_board` — every run of the system is a run of the board.
-/

namespace ReportTriage

/-- Any status may stand on any rung, except that `classified` stands on none before the second:
the workflow sets it after the queue item, and publishing is best effort. -/
def triageRules : Board.Rules String where
  height := 4
  initial := ReportStatus.queued.value
  allows text n := [ReportStatus.queued, .processing, .classified, .failed,
    .workflowStartFailed].any fun status => status.value = text && (status ≠ .classified || 2 ≤ n)
  allows_initial := by decide
  allows_mono hle h := by
    rw [List.any_eq_true] at h ⊢
    obtain ⟨status, hmem, h⟩ := h
    refine ⟨status, hmem, ?_⟩
    simp only [Bool.and_eq_true, Bool.or_eq_true, decide_eq_true_eq] at h ⊢
    exact h.imp_right (.imp_right fun hn => Nat.le_trans hn hle)

theorem allows_iff {text : String} {n : ℕ} : triageRules.allows text n = true ↔
    ∃ status : ReportStatus, text = status.value ∧ (status = .classified → 2 ≤ n) := by
  simp only [triageRules, List.any_eq_true, Bool.and_eq_true, Bool.or_eq_true, decide_eq_true_eq,
    ← imp_iff_not_or]
  constructor
  · rintro ⟨status, -, rfl, hn⟩
    exact ⟨status, rfl, hn⟩
  · rintro ⟨status, rfl, hn⟩
    exact ⟨status, by cases status <;> simp, rfl, hn⟩

namespace System

/-- The queue item of a report. -/
def queueItemOf (s : System) (r : String) : Option ReviewQueueItem :=
  s.upserts.queueItems.find upsertQueueItem r

/-- Which results of a report are there, in the order of the workflow. -/
def milestones (s : System) (r : String) : List Bool :=
  [(s.upserts.classificationOf r).isSome, (s.queueItemOf r).isSome,
    !(s.messagesOf subjectReportTriaged r).isEmpty, !(s.messagesOf subjectQueueRouted r).isEmpty]

/-- Every stored report, with its status and the number of its results. -/
def board (s : System) : Board String ReportCreateRequest String := fun r =>
  (s.getReport r).map fun row => ⟨row.request, row.status, (s.milestones r).count true⟩

variable [UnicodeData]

/-- Nothing is stored of report `r`. -/
structure Blank (s : System) (r : String) : Prop where
  report : s.getReport r = none
  classification : s.upserts.classificationOf r = none
  queueItem : s.queueItemOf r = none
  messages : ∀ m ∈ s.stream, m.payload.reportId ≠ r

/-- What the stores hold of report `r` is what its card tells. -/
structure Displays (s : System) (r : String) (card : Board.Card ReportCreateRequest String) :
    Prop where
  /-- The content is what is stored of the request that inserted the report. -/
  posted : ∃ q payload key pc, s.requests[q]? = some ⟨.create payload key, pc⟩ ∧
    .inserted q r ∈ s.history ∧ card.content = payload.stored
  report : ∃ row, s.getReport r = some row ∧ row.request = card.content ∧ row.status = card.mark
  status : ∃ status : ReportStatus, card.mark = status.value ∧
    (status = .classified → 2 ≤ card.rung)
  classification : (s.upserts.classificationOf r).map ReportClassification.result =
    if 1 ≤ card.rung then some (triage (card.content.load r)) else none
  queueItem : (s.queueItemOf r).map ReviewQueueItem.queueName =
    if 2 ≤ card.rung then some (triage (card.content.load r)).routedQueue else none
  triaged : s.messagesOf subjectReportTriaged r ≠ [] ↔ 3 ≤ card.rung
  queueRouted : s.messagesOf subjectQueueRouted r ≠ [] ↔ 4 ≤ card.rung
  messages : ∀ m ∈ s.stream, m.payload.reportId = r → m.payload.Says (triage (card.content.load r))

variable {s s' t : System} {a : Action} {r : String}

/-! ## The milestones are passed in order -/

omit [UnicodeData] in
theorem isSome_classificationOf :
    (s.upserts.classificationOf r).isSome = true ↔ s.upserts.Classified r :=
  Upsert.Table.isSome_find _

omit [UnicodeData] in
theorem isSome_queueItemOf : (s.queueItemOf r).isSome = true ↔ s.upserts.Routed r :=
  Upsert.Table.isSome_find _

omit [UnicodeData] in
theorem messagesOf_ne_nil {subject : String} : (!(s.messagesOf subject r).isEmpty) = true ↔
    ∃ m ∈ s.stream, m.subject = subject ∧ m.payload.reportId = r := by
  simp [messagesOf]

/-- A `queue.routed` message follows a `report.triaged` one. -/
theorem Causal.triaged_of_queueRouted (h : Causal s) {m : Message} (hm : m ∈ s.stream)
    (hsubject : m.subject = subjectQueueRouted) :
    ∃ m' ∈ s.stream, m'.subject = subjectReportTriaged ∧
      m'.payload.reportId = m.payload.reportId := by
  obtain ⟨-, -, -, hpayload⟩ := h.messages m hm
  cases hpm : m.payload with
  | triaged e =>
    simp only [hpm, hsubject] at hpayload
    exact absurd hpayload.1 (by decide)
  | queueRouted e =>
    obtain ⟨i, hi⟩ := List.getElem?_of_mem hm
    obtain ⟨m', hm', e', hpm', hr⟩ := h.order i m e hi hpm
    have hmem' := List.take_subset _ _ hm'
    obtain ⟨-, -, -, hpayload'⟩ := h.messages m' hmem'
    simp only [hpm'] at hpayload'
    exact ⟨m', hmem', hpayload'.1, by rw [hpm']; exact hr⟩

/-- The results of a report come in order: none is there without those before it. -/
theorem Causal.inOrder (h : Causal s) (r : String) :
    (s.milestones r).Pairwise fun x y => y = true → x = true := by
  have hrows : ∀ subject, (!(s.messagesOf subject r).isEmpty) = true →
      s.upserts.Classified r ∧ s.upserts.Routed r := by
    intro subject hmem
    obtain ⟨m, hm, -, rfl⟩ := messagesOf_ne_nil.mp hmem
    obtain ⟨-, hc, hq, -⟩ := h.messages m hm
    exact ⟨hc, hq⟩
  simp only [milestones, List.pairwise_cons, List.mem_cons, List.not_mem_nil, or_false,
    forall_eq_or_imp, forall_eq, IsEmpty.forall_iff, implies_true, List.Pairwise.nil, and_true,
    isSome_classificationOf, isSome_queueItemOf]
  refine ⟨⟨fun hrouted => ?_, fun ht => (hrows _ ht).1, fun hq => (hrows _ hq).1⟩,
    ⟨fun ht => (hrows _ ht).2, fun hq => (hrows _ hq).2⟩, fun hq => ?_⟩
  · obtain ⟨item, hitem, rfl⟩ := hrouted
    exact (h.queueItems.rows item hitem).2.1
  · obtain ⟨m, hm, hsubject, rfl⟩ := messagesOf_ne_nil.mp hq
    exact messagesOf_ne_nil.mpr (h.triaged_of_queueRouted hm hsubject)

/-! ## One step brings one result -/

omit [UnicodeData] in
theorem messagesOf_append {m : Message} (h : s'.stream = s.stream ++ [m]) (subject r : String) :
    s'.messagesOf subject r = s.messagesOf subject r ++
      if m.subject = subject ∧ m.payload.reportId = r then [m] else [] := by
  rw [messagesOf, messagesOf, h, List.filter_append, List.filter_singleton]
  simp

omit [UnicodeData] in
theorem subject_ne : subjectReportTriaged ≠ subjectQueueRouted := by decide

/-- A message that is stored brings the result it is. -/
theorem milestones_append {m : Message} (hm : m.Justified s) (hupserts : s'.upserts = s.upserts)
    (h : s'.stream = s.stream ++ [m]) : ∃ i, i < 4 ∧
      s'.milestones m.payload.reportId = (s.milestones m.payload.reportId).set i true ∧
      ∀ r, r ≠ m.payload.reportId → s'.milestones r = s.milestones r := by
  have happend := messagesOf_append h
  have hother : ∀ r, r ≠ m.payload.reportId → s'.milestones r = s.milestones r := by
    intro r hr
    simp only [milestones, queueItemOf, hupserts, happend, hr.symm, and_false, if_false,
      List.append_nil]
  obtain ⟨-, -, -, hpayload⟩ := hm
  have hsubject : m.subject = subjectReportTriaged ∨ m.subject = subjectQueueRouted := by
    split at hpayload
    · exact .inl hpayload.1
    · exact .inr hpayload.1
  rcases hsubject with hsubject | hsubject
  · refine ⟨2, by decide, ?_, hother⟩
    simp [milestones, queueItemOf, hupserts, happend, hsubject, subject_ne]
  · refine ⟨3, by decide, ?_, hother⟩
    simp [milestones, queueItemOf, hupserts, happend, hsubject, subject_ne.symm]

/-- A step brings at most one result, to one report, and then touches no report's row. -/
theorem Effect.milestones (h : Causal s) (he : Effect s a s') :
    (∀ r, s'.milestones r = s.milestones r) ∨
      (s'.reports = s.reports ∧ ∃ r₀ i, i < 4 ∧
        s'.milestones r₀ = (s.milestones r₀).set i true ∧
        ∀ r, r ≠ r₀ → s'.milestones r = s.milestones r) := by
  cases he with
  | @upserted a j x call v u b p ha hx hc hu hm =>
    cases b with
    | classification b =>
      obtain ⟨hT, hq⟩ := Upserts.step_classification hu
      have hset : ∀ r, milestones { s.setPhase j p with upserts := u } r =
          (s.milestones r).set 0 (u.classificationOf r).isSome := fun r => by
        simp only [System.milestones, queueItemOf, hq]
        rfl
      rcases Upsert.isSome_find_of_step h.sound.classifications hT with hsame | ⟨r₀, hnew, hsame⟩
      · exact .inl fun r => (hset r).trans (congrArg _ (hsame r))
      · exact .inr ⟨rfl, r₀, 0, by decide, (hset r₀).trans (congrArg _ hnew),
          fun r hr => (hset r).trans (congrArg _ (hsame r hr))⟩
    | queueItem b =>
      obtain ⟨hT, hq⟩ := Upserts.step_queueItem hu
      have hset : ∀ r, milestones { s.setPhase j p with upserts := u } r =
          (s.milestones r).set 1 (u.queueItems.find upsertQueueItem r).isSome := fun r => by
        simp only [System.milestones, Upserts.classificationOf, hq]
        rfl
      rcases Upsert.isSome_find_of_step h.sound.queueItems hT with hsame | ⟨r₀, hnew, hsame⟩
      · exact .inl fun r => (hset r).trans (congrArg _ (hsame r))
      · exact .inr ⟨rfl, r₀, 1, by decide, (hset r₀).trans (congrArg _ hnew),
          fun r hr => (hset r).trans (congrArg _ (hsame r hr))⟩
  | @published j x m next p input hx hm hp =>
    by_cases hdup : ∃ m' ∈ s.stream, m'.msgId = m.msgId ∧ m.storedAt ≤ m'.storedAt + duplicateWindow
    · have hstream : s.store m = s.stream := if_pos hdup
      exact .inl fun r => by simp only [System.milestones, messagesOf, hstream]; rfl
    · exact .inr ⟨rfl, _, milestones_append (h.published hx hm).1 rfl (if_neg hdup)⟩
  | arrived | requestMoved | inserted | reset | started | startFailed | scheduled | runMoved
  | attemptMoved | marked => exact .inl fun r => rfl

/-! ## One step of the board -/

/-- A result is of a stored report. -/
theorem Causal.stored (h : Causal s) (hc : s.upserts.Classified r) : (s.getReport r).isSome := by
  obtain ⟨c, hmem, rfl⟩ := hc
  obtain ⟨report, ⟨row, hrow, -⟩, -⟩ := h.classifications.rows c hmem
  exact Option.isSome_iff_exists.mpr ⟨row, hrow⟩

theorem Causal.stored_of_pos (h : Causal s) (hpos : 0 < (s.milestones r).count true) :
    (s.getReport r).isSome := by
  have hfirst : (s.milestones r)[0]? = some true := (Board.passed_iff (h.inOrder r)).mpr hpos
  exact h.stored (isSome_classificationOf.mp (Option.some.inj hfirst))

/-- A classified report has both rows. -/
theorem Causal.two_le (h : Causal s) (hst : s.status r = some ReportStatus.classified.value) :
    2 ≤ (s.milestones r).count true :=
  (Board.passed_iff (h.inOrder r)).mp
    (congrArg some (isSome_queueItemOf.mpr (h.classified r hst).2))

omit [UnicodeData] in
theorem board_eq_of_reports (hreports : s'.reports = s.reports)
    (hmilestones : (s'.milestones r).count true = (s.milestones r).count true) :
    s'.board r = s.board r := by
  simp only [board, getReport, hreports, hmilestones]

/-- A result that comes in is a card that climbs. -/
theorem board_of_result {i : ℕ} {r₀ : String} (h' : Causal s') (hreports : s'.reports = s.reports)
    (hi : i < 4) (hset : s'.milestones r₀ = (s.milestones r₀).set i true)
    (hother : ∀ r, r ≠ r₀ → s'.milestones r = s.milestones r) :
    s'.board = s.board ∨ ∃ b, Board.step triageRules s.board b = some s'.board := by
  have hkept : ∀ r, r ≠ r₀ → s'.board r = s.board r := fun r hr =>
    board_eq_of_reports hreports (by rw [hother r hr])
  have hcount : (s'.milestones r₀).count true = (s.milestones r₀).count true ∨
      (s'.milestones r₀).count true = (s.milestones r₀).count true + 1 ∧
        (s.milestones r₀).count true < 4 := by
    rw [hset]
    exact Board.count_set hi
  rcases hcount with hsame | ⟨hmore, hlt⟩
  · refine .inl (funext fun r => ?_)
    by_cases hr : r = r₀
    · exact board_eq_of_reports hreports (by rw [hr, hsame])
    · exact hkept r hr
  · have hrow' := h'.stored_of_pos (r := r₀) (by omega)
    obtain ⟨row, hrow'⟩ := Option.isSome_iff_exists.mp hrow'
    have hrow : s.getReport r₀ = some row := by rw [← hrow', getReport, getReport, hreports]
    refine .inr ⟨.climb r₀, ?_⟩
    have hcard : s.board r₀ = some ⟨row.request, row.status, (s.milestones r₀).count true⟩ := by
      rw [board, hrow]
      rfl
    rw [Board.step_climb hcard hlt]
    refine congrArg some (Board.eq_put ?_ hkept).symm
    rw [board, hrow', hmore]
    rfl

/-- A row that is inserted is a card that is posted. -/
theorem board_of_insert {row : Report} (h : Causal s) (happend : s'.reports = s.reports ++ [row])
    (hstatus : row.status = ReportStatus.queued.value)
    (hsame : ∀ r, s'.milestones r = s.milestones r) :
    s'.board = s.board ∨ ∃ b, Board.step triageRules s.board b = some s'.board := by
  have hget := getReport_append happend
  have hother : ∀ r, r ≠ row.id → s'.board r = s.board r := fun r hr => by
    simp only [board, hget, hsame, hr.symm, if_false, Option.or_none]
  cases hrow : s.getReport row.id with
  | some old =>
    refine .inl (funext fun r => ?_)
    by_cases hr : r = row.id
    · simp only [board, hget, hsame, hr, hrow, Option.some_or]
    · exact hother r hr
  | none =>
    refine .inr ⟨.post row.id row.request, ?_⟩
    have hzero : (s.milestones row.id).count true = 0 := by
      by_contra hne
      have hsome := h.stored_of_pos (Nat.pos_of_ne_zero hne)
      rw [hrow] at hsome
      cases hsome
    rw [Board.step_post (by rw [board, hrow]; rfl)]
    refine congrArg some (Board.eq_put ?_ hother).symm
    rw [board, hget, hrow, hsame, hzero, if_pos rfl, Option.none_or, Option.map_some, hstatus]
    rfl

/-- A status that is written is a card that is marked. -/
theorem board_of_write {loaded : Report} {status : ReportStatus} {now : Time} (h' : Causal s')
    (hcommit : s'.reports = commitStatus s.reports loaded status now)
    (hsame : ∀ r, s'.milestones r = s.milestones r) :
    s'.board = s.board ∨ ∃ b, Board.step triageRules s.board b = some s'.board := by
  have hget := getReport_commitStatus hcommit
  have hcard : ∀ r row, s.getReport r = some row → s'.board r = some ⟨row.request,
      (loaded.writeBack status now row).status, (s.milestones r).count true⟩ := fun r row hrow => by
    rw [board, hget, hrow, hsame, Option.map_some, Option.map_some, request_writeBack]
  have hkept : ∀ r, (∀ row, s.getReport r = some row →
      (loaded.writeBack status now row).status = row.status) → s'.board r = s.board r := by
    intro r hstatus
    cases hrow : s.getReport r with
    | none =>
      rw [board, board, hget, hrow]
      rfl
    | some row =>
      rw [hcard r row hrow, hstatus row hrow, board, hrow]
      rfl
  have hother : ∀ r, r ≠ loaded.id → s'.board r = s.board r := fun r hr =>
    hkept r fun row hrow => by
      rw [Report.status_writeBack, (getReport_eq_some hrow).2, if_neg hr]
  by_cases hstatus : ∀ row, s.getReport loaded.id = some row →
      (loaded.writeBack status now row).status = row.status
  · refine .inl (funext fun r => ?_)
    by_cases hr : r = loaded.id
    · exact hr ▸ hkept loaded.id hstatus
    · exact hother r hr
  · push Not at hstatus
    obtain ⟨row, hrow, hne⟩ := hstatus
    -- The column is assigned, and what is assigned may stand there.
    have hassigned : (loaded.writeBack status now row).status = status.value := by
      rw [Report.status_writeBack, if_pos (getReport_eq_some hrow).2] at hne ⊢
      exact (WriteBack.column_eq_or.resolve_left hne).1
    have hnew := hcard loaded.id row hrow
    rw [hassigned] at hnew
    have hallows :
        triageRules.allows status.value ((s.milestones loaded.id).count true) = true := by
      refine allows_iff.mpr ⟨status, rfl, fun hclassified => ?_⟩
      rw [← hsame]
      refine h'.two_le ?_
      rw [System.status, hget, hrow, Option.map_some, Option.map_some, hassigned, hclassified]
    have hold : s.board loaded.id =
        some ⟨row.request, row.status, (s.milestones loaded.id).count true⟩ := by
      rw [board, hrow]
      rfl
    refine .inr ⟨.mark loaded.id status.value, ?_⟩
    rw [Board.step_mark hold hallows]
    exact congrArg some (Board.eq_put hnew hother).symm

/-- **One step of the system** leaves the board as it is or does one thing to one card. -/
theorem board_of_step (h : machine.Reachable s) (hs : machine.step s a = some s') :
    s'.board = s.board ∨ ∃ b, Board.step triageRules s.board b = some s'.board := by
  have hcausal := causal_of_reachable h
  have hcausal' := causal_of_reachable (h.step hs)
  have he := effect_of_step hs
  rcases he.milestones hcausal with hsame | ⟨hreports, r₀, i, hi, hset, hother⟩
  · rcases he.reports with ⟨-, hreports⟩ | ⟨-, q, e, row, raises, -, hq, happend⟩ |
      ⟨loaded, status, now, -, hcommit⟩
    · exact .inl (funext fun r => board_eq_of_reports hreports (by rw [hsame]))
    · obtain ⟨payload, reportId, key, now, -, rfl⟩ := (coherent_of_reachable h).commit q e row hq
      exact board_of_insert hcausal happend rfl hsame
    · exact board_of_write hcausal' hcommit hsame
  · exact board_of_result hcausal' hreports hi hset hother

/-! ## Whole runs -/

theorem board_of_path (h : machine.Reachable s) (hp : machine.Path (fun _ _ => True) s t) :
    (Board.machine triageRules).Path (fun _ _ => True) s.board t.board := by
  refine hp.invariant (I := fun t => (Board.machine triageRules).Path (fun _ _ => True) s.board
    t.board) .refl fun hp' ih _ hs => ?_
  rcases board_of_step (h.path hp') hs with hsame | ⟨b, hb⟩
  · rw [hsame]
    exact ih
  · exact ih.tail trivial hb

theorem board_reachable (h : machine.Reachable s) :
    (Board.machine triageRules).Reachable s.board := by
  obtain ⟨s₀, rfl, hp⟩ := h
  exact ⟨empty.board, rfl, board_of_path (.init rfl) hp⟩

theorem blank_of_board (h : machine.Reachable s) (hcard : s.board r = none) : s.Blank r := by
  have hcausal := causal_of_reachable h
  have hrow : s.getReport r = none := Option.map_eq_none_iff.mp hcard
  have hnot : ¬ s.upserts.Classified r := fun hc => by
    have hsome := hcausal.stored hc
    rw [hrow] at hsome
    cases hsome
  refine ⟨hrow, ?_, ?_, fun m hm hr => ?_⟩
  · rw [← Option.not_isSome_iff_eq_none, isSome_classificationOf]
    exact hnot
  · rw [← Option.not_isSome_iff_eq_none, isSome_queueItemOf]
    rintro ⟨item, hitem, rfl⟩
    exact hnot (hcausal.queueItems.rows item hitem).2.1
  · obtain ⟨-, hc, -⟩ := hcausal.messages m hm
    exact hnot (hr ▸ hc)

omit [UnicodeData] in
theorem map_eq_ite {α β : Type} {o : Option α} {f : α → β} {v : β} {P : Prop} [Decidable P]
    (ho : o.isSome = true ↔ P) (hv : ∀ x, o = some x → f x = v) :
    o.map f = if P then some v else none := by
  cases o with
  | none => exact (if_neg fun hP => Bool.false_ne_true (ho.mpr hP)).symm
  | some x => rw [if_pos (ho.mp rfl), Option.map_some, hv x rfl]

theorem displays_of_board (h : machine.Reachable s)
    {card : Board.Card ReportCreateRequest String} (hcard : s.board r = some card) :
    s.Displays r card := by
  have hcausal := causal_of_reachable h
  have hlegal := Board.legal_of_reachable (board_reachable h) hcard
  obtain ⟨row, hrow, rfl⟩ := Option.map_eq_some_iff.mp hcard
  have hpassed : ∀ i, (s.milestones r)[i]? = some true ↔ i < (s.milestones r).count true :=
    fun i => Board.passed_iff (hcausal.inOrder r)
  have hsome : ∀ l : List Message, l ≠ [] ↔ some (!l.isEmpty) = some true := fun l => by
    cases l <;> simp
  have hposted : ∃ q payload key pc, s.requests[q]? = some ⟨.create payload key, pc⟩ ∧
      .inserted q r ∈ s.history ∧ row.request = payload.stored := by
    obtain ⟨hmem, rfl⟩ := getReport_eq_some hrow
    have hintake := intake_of_reachable h
    obtain ⟨q, hev⟩ := hintake.rooted row hmem
    obtain ⟨payload, key, pc, row', hq, hmem', hid, -, hrequest⟩ := inserted_content h q row.id hev
    obtain rfl := hintake.eq_of_collides hmem' hmem (.inl hid)
    exact ⟨q, payload, key, pc, hq, hev, hrequest⟩
  refine ⟨hposted, ⟨row, hrow, rfl, rfl⟩, allows_iff.mp hlegal.1, ?_, ?_, ?_, ?_, ?_⟩
  · refine map_eq_ite (Option.some_inj.symm.trans (hpassed 0)) fun c hc => ?_
    obtain ⟨hmem, rfl⟩ := Upserts.classificationOf_some hc
    exact (hcausal.classifications.rows c hmem).eq_load hrow rfl
  · refine map_eq_ite (Option.some_inj.symm.trans (hpassed 1)) fun item hitem => ?_
    obtain ⟨hmem, hkey⟩ := Upsert.Table.find_some _ hitem
    obtain ⟨⟨result, hresult, hqueue⟩, -⟩ := hcausal.queueItems.rows item hmem
    rw [show item.reportId = r from hkey] at hresult
    rw [← hqueue, hresult.eq_load hrow rfl]
  · exact (hsome _).trans (hpassed 2)
  · exact (hsome _).trans (hpassed 3)
  · intro m hm hr
    exact says_of_justified (hcausal.messages m hm) hr hrow rfl

/-- **The system refines the board.** Whatever runs overlap, are given up or come again: seen on
the board, a run of the system is a run of the board, in which cards are posted, are marked, and
climb one rung at a time; what the stores hold of a report is what its card tells, all of it
computed from what is stored of the request; and between two states of a run each rung between
those of a card is the one it stands on at some moment. -/
theorem refines_board (h : machine.Reachable s) (hp : machine.Path (fun _ _ => True) s t) :
    (Board.machine triageRules).Path (fun _ _ => True) s.board t.board ∧
    (∀ r, (t.board r = none → t.Blank r) ∧ ∀ card, t.board r = some card → t.Displays r card) ∧
    (∀ r card, s.board r = some card → ∃ card', t.board r = some card' ∧ card.Becomes card') ∧
    ∀ r n, s.board.rung r ≤ n → n ≤ t.board.rung r → ∃ u,
      machine.Path (fun _ _ => True) s u ∧ machine.Path (fun _ _ => True) u t ∧
        u.board.rung r = n := by
  have ht := h.path hp
  refine ⟨board_of_path h hp, fun r => ⟨blank_of_board ht, fun card => displays_of_board ht⟩,
    fun r card hcard => Board.kept_of_path (board_of_path h hp) hcard, fun r n hs hn => ?_⟩
  refine hp.exists_between (μ := fun u => u.board.rung r) (fun {u a v} hu hstep => ?_) hs hn
  rcases board_of_step (h.path hu) hstep with hsame | ⟨b, hb⟩
  · rw [hsame]
    exact Nat.le_succ _
  · exact Board.rung_le_of_step hb r

omit [UnicodeData] in
/-- A clean run takes a card from the bottom to the top, by way of the first rung. -/
theorem refines_board_cleanRun : ∃ (_ : UnicodeData) (t u : System)
    (card : Board.Card ReportCreateRequest String),
    machine.Path (fun _ _ => True) empty t ∧ t.board "r" = some card ∧ card.rung = 4 ∧
      t.Displays "r" card ∧ machine.Path (fun _ _ => True) u t ∧ u.board.rung "r" = 1 := by
  let _ := asciiUnicode
  have hrun : ((machine.run empty (Sample.create 0 "r" ++ Sample.cleanRun 0 0)).any fun t =>
      (t.board "r").any fun card => card.rung = 4) = true := by decide +kernel
  obtain ⟨t, ht, hcard⟩ := (Option.any_eq_true _ _).mp hrun
  obtain ⟨card, hcard, hrung⟩ := (Option.any_eq_true _ _).mp hcard
  have hrung : card.rung = 4 := of_decide_eq_true hrung
  have hp : machine.Path (fun _ _ => True) empty t := .of_runIf ht
  obtain ⟨-, hdisplays, -, hbetween⟩ := refines_board (.init rfl) hp
  have htop : t.board.rung "r" = 4 := by rw [Board.rung, hcard, Option.elim_some, hrung]
  obtain ⟨u, -, hut, hu⟩ := hbetween "r" 1 (Nat.zero_le 1) (by omega)
  exact ⟨_, t, u, card, hp, hcard, hrung, (hdisplays "r").2 card hcard, hut, hu⟩

/-! ## The rules are exact -/

/-- Report `r` is created, and its run has brought the first `n` results. -/
def bringing : ℕ → List Action
  | 0 => Sample.create 0 "r" ++ Sample.activity 0 0 1 ++ Sample.activity 0 1 2
  | 1 => bringing 0 ++ Sample.activity 0 2 1 ++ Sample.activity 0 3 1 ++ Sample.activity 0 4 1 ++
      Sample.activity 0 5 4
  | 2 => bringing 1 ++ Sample.activity 0 6 4
  | n + 3 => bringing 2 ++ [.schedule 0] ++ List.replicate (n + 1) (.exec 7 (Sample.input 2))

/-- … and is then reset by a request to reprocess it. -/
def resetting (n : ℕ) : List Action :=
  bringing n ++ [.arrive (.reprocess "r"), .loadForReprocess 1, .commitReset 1 3 false]

/-- … and then gets this status: of a second run, or by its first one going on, if it is
`classified`. -/
def exhibiting (n : ℕ) : ReportStatus → List Action
  | .processing => bringing n
  | .queued => resetting n
  | .workflowStartFailed => resetting n ++ [.start 1 (.rejected ""), .commitStartFailed 1 3]
  | .failed =>
    let i := if n = 0 then 2 else if n = 1 then 6 else if n = 2 then 7 else 8
    resetting n ++ [.start 1 .accepted, .schedule 1, .failAttempt i ⟨"", "", true⟩, .complete 1,
      .schedule 1, .exec (i + 1) (Sample.input 3), .exec (i + 1) (Sample.input 3)]
  | .classified => bringing n ++ (if n = 2 then [.schedule 0] else []) ++
      (if n = 4 then [] else [.failAttempt 7 ⟨"", "", true⟩]) ++ [.complete 0] ++
      Sample.activity 0 8 2

omit [UnicodeData] in
/-- **Which cards there are.** A report is found with a status and with the first `n` of its four
results if and only if `n` is at least two in case it is classified: no other status tells
anything of the results, and `classified` tells nothing of the messages. -/
theorem card_iff (status : ReportStatus) (n : ℕ) :
    (∃ (_ : UnicodeData) (s : System) (r : String) (card : Board.Card ReportCreateRequest String),
      machine.Reachable s ∧ s.board r = some card ∧ card.mark = status.value ∧ card.rung = n) ↔
    n ≤ 4 ∧ (status = .classified → 2 ≤ n) := by
  constructor
  · rintro ⟨_, s, r, card, hs, hcard, hmark, rfl⟩
    obtain ⟨hallows, hle⟩ := Board.legal_of_reachable (board_reachable hs) hcard
    obtain ⟨status', hstatus', hn⟩ := allows_iff.mp hallows
    rw [hmark, ReportStatus.value_inj] at hstatus'
    exact ⟨hle, hstatus' ▸ hn⟩
  · rintro ⟨hle, hn⟩
    let _ := asciiUnicode
    have hall : ∀ status : ReportStatus, ∀ n < 5, (status = .classified → 2 ≤ n) →
        ((machine.run empty (exhibiting n status)).any fun s => (s.board "r").any fun card =>
          card.mark = status.value ∧ card.rung = n) = true := by
      intro status
      cases status <;> decide +kernel
    obtain ⟨s, hs, hcard⟩ := Machine.Along.exists_of_runIf rfl (hall status n (by omega) hn)
    obtain ⟨card, hcard, hshown⟩ := (Option.any_eq_true _ _).mp hcard
    exact ⟨_, s, "r", card, hs, hcard, of_decide_eq_true hshown⟩

end System

end ReportTriage

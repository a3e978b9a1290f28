import ReportTriage.Justification
import ReportTriage.Listing

/-!
# Causes of results

Status, classification, queue item and messages are written by separate transactions of
separate activities. `System.Causal` ties them together: whatever a run, an attempt or an open
upsert holds is justified by the stores, so whatever they write is. Terminated runs and
attempts nobody waits for are held to the same.

## Main definitions

* `System.Causal`, `System.causal_of_reachable` — the invariant.
* `System.causal_chain` — what each stored or published result implies.
* `System.results_are_triage` — every stored or published result is that of the rules.
-/

namespace ReportTriage

open WriteBack (column column_self column_of_ne)

/-! ## The invariant -/

namespace System
variable [UnicodeData]

/-- A call of `upsert_classification` with the result of the rules. -/
def GoodClassificationArgs (s : System) (args : ClassificationArgs) : Prop :=
  s.ResultOf args.reportId ⟨args.category, args.priority, args.requiresReview, args.confidence,
    args.reasoningSummary, args.routedQueue⟩

def GoodClassification (s : System) (row : ReportClassification) : Prop :=
  s.ResultOf row.reportId ⟨row.category, row.priority, row.requiresReview, row.confidence,
    row.reasoningSummary, row.routedQueue⟩

/-- A call of `upsert_queue_item` with the queue of the rules, after the classification. -/
def GoodQueueArgs (s : System) (args : QueueItemArgs) : Prop :=
  (∃ t, s.ResultOf args.reportId t ∧ t.routedQueue = args.queueName) ∧
    s.upserts.Classified args.reportId

def GoodQueueItem (s : System) (row : ReviewQueueItem) : Prop :=
  (∃ t, s.ResultOf row.reportId t ∧ t.routedQueue = row.queueName) ∧
    s.upserts.Classified row.reportId ∧ row.queueStatus = "pending" ∧ row.assignedTo = none

/-- Some `report.triaged` message of the report is stored. -/
def Announced (stream : List Message) (r : String) : Prop :=
  ∃ m ∈ stream, ∃ e, m.payload = .triaged e ∧ e.reportId = r

/-- Every result is justified, wherever it is. -/
structure Causal (s : System) : Prop where
  sound : s.upserts.Sound
  pc : ∀ (ρ : ℕ) (run : Run), s.runs[ρ]? = some run → run.pc.Justified s run.reportId
  activity : ∀ (i : ℕ) (x : Attempt), s.attempts[i]? = some x → x.activity.Justified s
  returns : ∀ (i : ℕ) (x : Attempt) (v : Value), s.attempts[i]? = some x →
    x.phase = .finished (.ok v) → x.activity.Returns s v
  txn : ∀ (i : ℕ) (x : Attempt) (t : ℕ), s.attempts[i]? = some x → x.phase = .upserting t →
    ∀ call v, x.activity.upsertCall = some (call, v) → s.upserts.HasTxn t call
  announced : ∀ (i : ℕ) (x : Attempt) (now : Time), s.attempts[i]? = some x →
    x.phase = .triagedPublished now → ∀ r c p rr conf qn,
    x.activity = .publishTriageEvents r c p rr conf qn → Announced s.stream r
  classifications :
    s.upserts.classifications.Contents s.GoodClassificationArgs s.GoodClassification
  queueItems : s.upserts.queueItems.Contents s.GoodQueueArgs s.GoodQueueItem
  messages : ∀ m ∈ s.stream, m.Justified s
  /-- A `queue.routed` message comes after a `report.triaged` one. -/
  order : ∀ (i : ℕ) (m : Message) (e : QueueRoutedEvent), s.stream[i]? = some m →
    m.payload = .queueRouted e → Announced (s.stream.take i) e.reportId
  classified : ∀ r, s.status r = some ReportStatus.classified.value →
    s.upserts.Classified r ∧ s.upserts.Routed r

theorem causal_empty : Causal empty where
  sound := Upserts.sound_of_init ⟨⟨rfl, List.Pairwise.nil⟩, ⟨rfl, List.Pairwise.nil⟩⟩
  pc := by simp [empty]
  activity := by simp [empty]
  returns := by simp [empty]
  txn := by simp [empty]
  announced := by simp [empty]
  classifications := by constructor <;> simp [empty, Upserts.empty]
  queueItems := by constructor <;> simp [empty, Upserts.empty]
  messages := by simp [empty]
  order := by simp [empty]
  classified := by simp [empty, status, getReport]

variable {s s' : System} {a : Action}

/-! ### One step -/

theorem Causal.sound_step (h : Causal s) (he : Effect s a s') : s'.upserts.Sound :=
  h.sound.path he.upserts_path

theorem Causal.extends_step (h : Causal s) (he : Effect s a s') : Extends s s' :=
  he.extends h.sound

theorem Causal.pc_step (h : Causal s) (hco : Coherent s) (he : Effect s a s') {ρ : ℕ} {run' : Run}
    (hρ' : s'.runs[ρ]? = some run') : run'.pc.Justified s' run'.reportId := by
  have hext := h.extends_step he
  cases he.run hρ' with
  | same hρ => exact hext.pc (h.pc ρ _ hρ)
  | started => trivial
  | @terminated _ _ _ _ run _ _ _ hρ => exact hext.pc (h.pc ρ run hρ)
  | @scheduled run _ hρ => exact hext.pc (h.pc ρ run hρ)
  | @moved a run _ hρ hopen hm hattempts =>
    have hpc := h.pc ρ run hρ
    cases hm with
    | @succeeded i x v _ hout hx hp hrun =>
      obtain ⟨⟨y, call, hy, -, hcall, hact⟩, -⟩ := hco.outstanding ρ run i hρ hout
      rw [hx] at hy
      cases hy
      have hv := h.returns i x v hx hp
      rw [hact] at hv
      obtain ⟨pc', hresume, hjust⟩ := WorkflowPc.justified_resume hpc hcall hv
      rw [Run.succeeded, hresume] at hrun
      cases hrun
      exact hext.pc hjust
    | failed | timedOut => exact hext.pc (Run.justified_attemptFailed hpc)

theorem Causal.activity_step (h : Causal s) (he : Effect s a s') {i : ℕ} {y : Attempt}
    (hy : s'.attempts[i]? = some y) : y.activity.Justified s' := by
  have hext := h.extends_step he
  rcases he.attempt hy with hold | ⟨-, ρ, run, call, -, hρ, -, hcall, rfl⟩ | ⟨x, p, hx, rfl, -⟩
  · exact hext.activity (h.activity i y hold)
  · exact hext.activity (WorkflowPc.justified_call (h.pc ρ run hρ) hcall)
  · exact hext.activity (h.activity i x hx)

theorem Causal.returns_step (h : Causal s) (he : Effect s a s') {i : ℕ} {y : Attempt} {v : Value}
    (hy : s'.attempts[i]? = some y) (hp : y.phase = .finished (.ok v)) :
    y.activity.Returns s' v := by
  have hext := h.extends_step he
  rcases he.attempt hy with hold | ⟨-, ρ, run, call, -, -, -, -, rfl⟩ | ⟨x, p, hx, rfl, hstep⟩
  · exact hext.returns (h.returns i y v hold hp)
  · cases hp
  · have hact := h.activity i x hx
    have htxn := h.txn i x
    obtain ⟨ρ, activity, phase⟩ := x
    obtain rfl : p = .finished (.ok v) := hp
    generalize hp' : AttemptPhase.finished (.ok v) = p' at hstep
    cases hstep with
    | moved hm =>
      cases hm <;> cases hp'
      · rename_i hget
        exact hext.loaded _ _ ⟨_, hget, rfl⟩
      · rfl
      · rfl
      · rfl
    | marked input hph hw hresult =>
      rcases hresult with rfl | ⟨e, rfl⟩ <;> cases hp'
      cases activity <;> trivial
    | @upserted _ call w b _ hc hu hm =>
      cases hm <;> cases hp'
      rename_i t newId now hcommitted
      have hheld := (htxn t hx rfl call v hc).step hu
      exact Activity.returns_of_holds hc (Upserts.holds_of_ended (h.sound_step he) hheld hcommitted)
    | published hm hnext =>
      rcases hnext with rfl | ⟨e, rfl⟩
      · cases hm <;> cases hp'
        trivial
      · cases hp'

theorem Causal.txn_step (h : Causal s) (he : Effect s a s') {i : ℕ} {y : Attempt} {t : ℕ}
    (hy : s'.attempts[i]? = some y) (hp : y.phase = .upserting t) {call : UpsertCall} {v : Value}
    (hc : y.activity.upsertCall = some (call, v)) : s'.upserts.HasTxn t call := by
  have hkept : s.upserts.HasTxn t call → s'.upserts.HasTxn t call := by
    intro hheld
    rcases he.upserts with hsame | ⟨b, hb⟩
    · rw [hsame]; exact hheld
    · exact hheld.step hb
  rcases he.attempt hy with hold | ⟨-, ρ, run, call, -, -, -, -, rfl⟩ | ⟨x, p, hx, rfl, hstep⟩
  · exact hkept (h.txn i y t hold hp call v hc)
  · cases hp
  · have htxn := h.txn i x
    obtain ⟨ρ, activity, phase⟩ := x
    obtain rfl : p = .upserting t := hp
    generalize hp' : AttemptPhase.upserting t = p' at hstep
    cases hstep with
    | moved hm => cases hm <;> cases hp'
    | marked => cases hp'
    | upserted hc' hu hm =>
      rw [hc] at hc'
      cases hc'
      cases hm <;> cases hp'
      · exact Upserts.hasTxn_begin hu
      · exact (htxn t hx rfl call v hc).step hu
    | published hm hnext =>
      rcases hnext with rfl | ⟨e, rfl⟩
      · cases hm <;> cases hp'
      · cases hp'

/-! ### The stream -/

omit [UnicodeData] in
theorem Announced.mono {l l' : List Message} {r : String} (h : Announced l r) (hl : l ⊆ l') :
    Announced l' r := by
  obtain ⟨m, hm, hrest⟩ := h
  exact ⟨m, hl hm, hrest⟩

omit [UnicodeData] in
theorem msgId_inj {subject r r' : String} : msgId subject r = msgId subject r' ↔ r = r' := by
  simp [msgId]

omit [UnicodeData] in
/-- The ids of the two subjects are apart. -/
theorem msgId_ne {r r' : String} :
    msgId subjectQueueRouted r ≠ msgId subjectReportTriaged r' := by
  intro h
  have := congrArg (fun s => s.toList.head?) h
  simp [msgId, subjectQueueRouted, subjectReportTriaged] at this

omit [UnicodeData] in
theorem mem_store {m m' : Message} (h : m' ∈ s.store m) : m' ∈ s.stream ∨ m' = m := by
  unfold store at h
  split at h
  · exact .inl h
  · exact (List.mem_append.mp h).imp_right List.mem_singleton.mp

/-- Once the publication of `report.triaged` is acknowledged such a message is stored: this one,
or the one it is a duplicate of. -/
theorem Causal.announced_store (h : Causal s) (e : TriagedEvent) (storedAt : ServerTime) :
    Announced (s.store ⟨subjectReportTriaged, msgId subjectReportTriaged e.reportId, .triaged e,
      storedAt⟩) e.reportId := by
  unfold store
  split
  · rename_i hdup
    obtain ⟨m', hm', hsame, -⟩ := hdup
    obtain ⟨hid', -, -, hpayload⟩ := h.messages m' hm'
    rw [hid'] at hsame
    cases hp' : m'.payload with
    | triaged e' =>
      rw [hp'] at hpayload hsame
      rw [hpayload.1] at hsame
      exact ⟨m', hm', e', hp', msgId_inj.mp hsame⟩
    | queueRouted e' =>
      rw [hp'] at hpayload hsame
      rw [hpayload.1] at hsame
      exact (msgId_ne hsame).elim
  · exact ⟨_, List.mem_append_right _ (List.mem_singleton.mpr rfl), e, rfl, rfl⟩

theorem Causal.announced_step (h : Causal s) (he : Effect s a s') {i : ℕ} {y : Attempt}
    {now : Time} (hy : s'.attempts[i]? = some y) (hp : y.phase = .triagedPublished now)
    {r c p qn : String} {rr : Bool} {conf : ℚ}
    (hact : y.activity = .publishTriageEvents r c p rr conf qn) : Announced s'.stream r := by
  rcases he.attempt hy with hold | ⟨-, ρ, run, call, -, -, -, -, rfl⟩ | ⟨x, p, hx, rfl, hstep⟩
  · exact (h.announced i y now hold hp r c p rr conf qn hact).mono he.stream_mono.subset
  · cases hp
  · obtain ⟨ρ, activity, phase⟩ := x
    obtain rfl : p = .triagedPublished now := hp
    obtain rfl : activity = _ := hact
    generalize hp' : AttemptPhase.triagedPublished now = p' at hstep
    cases hstep with
    | moved hm => cases hm <;> cases hp'
    | marked => cases hp'
    | upserted hc => cases hc
    | published hm hnext hstream =>
      rcases hnext with rfl | ⟨e, rfl⟩
      · rw [hstream]
        cases hm <;> cases hp'
        exact h.announced_store ⟨r, c, p, rr, conf, now⟩ _
      · cases hp'

/-- What an attempt publishes is justified, and `queue.routed` has been announced. -/
theorem Causal.published (h : Causal s) {i : ℕ} {x : Attempt} {m : Message} {next : AttemptPhase}
    (hx : s.attempts[i]? = some x) (hm : PublishMove x.activity x.phase m next) :
    m.Justified s ∧ ∀ e, m.payload = .queueRouted e → Announced s.stream e.reportId := by
  have hact := h.activity i x hx
  have hann := h.announced i x
  obtain ⟨ρ, activity, phase⟩ := x
  cases hm with
  | triaged now storedAt =>
    obtain ⟨⟨summary, ht⟩, hc, hq⟩ := hact
    exact ⟨⟨rfl, hc, hq, rfl, summary, _, ht⟩, nofun⟩
  | @queueRouted _ _ _ _ _ _ now storedAt =>
    obtain ⟨⟨summary, ht⟩, hc, hq⟩ := hact
    refine ⟨⟨rfl, hc, hq, rfl, rfl, _, ht, rfl⟩, ?_⟩
    intro e hp
    cases hp
    exact hann now hx rfl _ _ _ _ _ _ rfl

theorem Causal.messages_step (h : Causal s) (he : Effect s a s') {m : Message}
    (hm : m ∈ s'.stream) : m.Justified s' := by
  have hext := h.extends_step he
  cases he with
  | published input hx hpub =>
    rcases mem_store hm with hold | rfl
    · exact hext.message (h.messages m hold)
    · exact hext.message (h.published hx hpub).1
  | arrived | requestMoved | inserted | reset | started | startFailed | scheduled | runMoved
  | attemptMoved | marked | upserted => exact hext.message (h.messages m hm)

theorem Causal.order_step (h : Causal s) (he : Effect s a s') {i : ℕ} {m : Message}
    {e : QueueRoutedEvent} (hm : s'.stream[i]? = some m) (hp : m.payload = .queueRouted e) :
    Announced (s'.stream.take i) e.reportId := by
  cases he with
  | @published j x new next p input hx hpub =>
    change (s.store new)[i]? = some m at hm
    change Announced ((s.store new).take i) e.reportId
    unfold store at hm ⊢
    split at hm
    · rename_i hdup
      rw [if_pos hdup]
      exact h.order i m e hm hp
    · rename_i hnew
      rw [if_neg hnew]
      rcases Slots.append_cases hm with hold | ⟨rfl, rfl⟩
      · rw [List.take_append_of_le_length (List.getElem?_eq_some_iff.mp hold).1.le]
        exact h.order i m e hold hp
      · rw [List.take_left]
        exact (h.published hx hpub).2 e hp
  | arrived | requestMoved | inserted | reset | started | startFailed | scheduled | runMoved
  | attemptMoved | marked | upserted => exact h.order i m e hm hp

/-! ### The tables -/

theorem Extends.goodClassificationArgs (h : Extends s s') {args : ClassificationArgs}
    (hargs : s.GoodClassificationArgs args) : s'.GoodClassificationArgs args := h.resultOf hargs

theorem Extends.goodClassification (h : Extends s s') {row : ReportClassification}
    (hrow : s.GoodClassification row) : s'.GoodClassification row := h.resultOf hrow

theorem Extends.goodQueueArgs (h : Extends s s') {args : QueueItemArgs}
    (hargs : s.GoodQueueArgs args) : s'.GoodQueueArgs args := by
  obtain ⟨⟨t, ht, hq⟩, hc⟩ := hargs
  exact ⟨⟨t, h.resultOf ht, hq⟩, h.classified _ hc⟩

theorem Extends.goodQueueItem (h : Extends s s') {row : ReviewQueueItem}
    (hrow : s.GoodQueueItem row) : s'.GoodQueueItem row := by
  obtain ⟨⟨t, ht, hq⟩, hc, hrest⟩ := hrow
  exact ⟨⟨t, h.resultOf ht, hq⟩, h.classified _ hc, hrest⟩

/-- An update of a good row by a good call leaves it good: loaded, assigned and stored columns
are all those of the one result. -/
theorem goodClassification_overwrite {args : ClassificationArgs} {now : Time}
    {existing stored : ReportClassification} (hargs : s.GoodClassificationArgs args)
    (he : s.GoodClassification existing) (hs : s.GoodClassification stored)
    (hke : existing.reportId = args.reportId) (hks : stored.reportId = args.reportId) :
    s.GoodClassification (upsertClassification.overwrite args now existing stored) := by
  unfold GoodClassification at he hs
  rw [hke] at he
  have hstored := hs
  rw [hks] at hs
  have heq := he.unique hargs
  have heq' := hs.unique hargs
  simp only [TriageResult.mk.injEq] at heq heq'
  obtain ⟨h1, h2, h3, h4, h5, h6⟩ := heq
  obtain ⟨h1', h2', h3', h4', h5', h6'⟩ := heq'
  simp only [GoodClassification, upsertClassification, h1, h2, h3, h4, h5, h6, column_self]
  exact hstored

theorem goodQueueItem_overwrite {args : QueueItemArgs} {now : Time}
    {existing stored : ReviewQueueItem} (hargs : s.GoodQueueArgs args)
    (he : s.GoodQueueItem existing) (hs : s.GoodQueueItem stored)
    (hke : existing.reportId = args.reportId) :
    s.GoodQueueItem (upsertQueueItem.overwrite args now existing stored) := by
  obtain ⟨⟨t, ht, hq⟩, -⟩ := hargs
  obtain ⟨⟨te, hte, hqe⟩, -, hpending, hfree⟩ := he
  obtain ⟨hqs, hcs, hpending', hfree'⟩ := hs
  rw [hke] at hte
  have hname : existing.queueName = args.queueName := by rw [← hqe, ← hq, hte.unique ht]
  refine ⟨?_, hcs, ?_, ?_⟩
  · simpa only [upsertQueueItem, hname, column_self] using hqs
  · simp only [upsertQueueItem, hpending, column_self]
    exact hpending'
  · simp only [upsertQueueItem, hfree, column_self]
    exact hfree'

omit [UnicodeData] in
/-- A transaction is begun with the call of its own attempt. -/
theorem UpsertMove.eq_of_begin {u u' : Upserts} {call call' : UpsertCall} {v : Value}
    {b : Upserts.Action} {p p' : AttemptPhase} (h : UpsertMove u u' call v b p p')
    (hb : b = call'.begin) : call = call' := by
  cases h with
  | began => cases call <;> cases call' <;> cases hb <;> rfl
  | advanced | returned | raised | failed => cases call <;> cases call' <;> cases hb

/-- Only the call of a justified activity begins an upsert. -/
theorem begin_classification {i : ℕ} {x : Attempt} {call : UpsertCall} {v : Value}
    {u : Upserts} {b : Upserts.Action} {p : AttemptPhase} {args : ClassificationArgs}
    (h : Causal s) (hx : s.attempts[i]? = some x) (hc : x.activity.upsertCall = some (call, v))
    (hm : UpsertMove s.upserts u call v b x.phase p) (hb : b = .classification (.begin args)) :
    s.GoodClassificationArgs args := by
  have hact := h.activity i x hx
  obtain rfl : call = .classification args := hm.eq_of_begin hb
  obtain ⟨ρ, activity, phase⟩ := x
  cases activity <;> cases hc
  exact hact

theorem begin_queueItem {i : ℕ} {x : Attempt} {call : UpsertCall} {v : Value}
    {u : Upserts} {b : Upserts.Action} {p : AttemptPhase} {args : QueueItemArgs}
    (h : Causal s) (hx : s.attempts[i]? = some x) (hc : x.activity.upsertCall = some (call, v))
    (hm : UpsertMove s.upserts u call v b x.phase p) (hb : b = .queueItem (.begin args)) :
    s.GoodQueueArgs args := by
  have hact := h.activity i x hx
  obtain rfl : call = .queueItem args := hm.eq_of_begin hb
  obtain ⟨ρ, activity, phase⟩ := x
  cases activity <;> cases hc
  exact hact

theorem Causal.classifications_step (h : Causal s) (he : Effect s a s') :
    s'.upserts.classifications.Contents s'.GoodClassificationArgs s'.GoodClassification := by
  have hext := h.extends_step he
  have hcontents := h.classifications.mono (fun _ => hext.goodClassificationArgs)
    fun _ => hext.goodClassification
  cases he with
  | @upserted a i x call v u b p ha hx hc hu hm =>
    cases b with
    | queueItem b => exact (Upserts.step_queueItem hu).2 ▸ hcontents
    | classification b =>
      have hT := (Upserts.step_classification hu).1
      refine (Upsert.effect_of_step hT).contents h.sound.classifications hcontents
        (fun y hy => ?_) (fun args newId now hargs => hargs)
        fun args now l r hargs hl hr hkl hkr => goodClassification_overwrite hargs hl hr hkl hkr
      rcases Upsert.args_of_step hT hy with ⟨z, hz, hargs⟩ | hbegin
      · exact hargs ▸ hcontents.args z hz
      · exact hext.goodClassificationArgs (begin_classification h hx hc hm (by rw [hbegin]))
  | arrived | requestMoved | inserted | reset | started | startFailed | scheduled | runMoved
  | attemptMoved | marked | published => exact hcontents

theorem Causal.queueItems_step (h : Causal s) (he : Effect s a s') :
    s'.upserts.queueItems.Contents s'.GoodQueueArgs s'.GoodQueueItem := by
  have hext := h.extends_step he
  have hcontents := h.queueItems.mono (fun _ => hext.goodQueueArgs) fun _ => hext.goodQueueItem
  cases he with
  | @upserted a i x call v u b p ha hx hc hu hm =>
    cases b with
    | classification b => exact (Upserts.step_classification hu).2 ▸ hcontents
    | queueItem b =>
      have hT := (Upserts.step_queueItem hu).1
      refine (Upsert.effect_of_step hT).contents h.sound.queueItems hcontents
        (fun y hy => ?_) (fun args newId now hargs => ⟨hargs.1, hargs.2, rfl, rfl⟩)
        fun args now l r hargs hl hr hkl _ => goodQueueItem_overwrite hargs hl hr hkl
      rcases Upsert.args_of_step hT hy with ⟨z, hz, hargs⟩ | hbegin
      · exact hargs ▸ hcontents.args z hz
      · exact hext.goodQueueArgs (begin_queueItem h hx hc hm (by rw [hbegin]))
  | arrived | requestMoved | inserted | reset | started | startFailed | scheduled | runMoved
  | attemptMoved | marked | published => exact hcontents

theorem Causal.classified_step (h : Causal s) (hco : Coherent s) (he : Effect s a s') {r : String}
    (hs : s'.status r = some ReportStatus.classified.value) :
    s'.upserts.Classified r ∧ s'.upserts.Routed r := by
  have hext := h.extends_step he
  rcases hco.status_new he hs (by decide) with hold | ⟨loaded, hw, rfl⟩
  · exact (h.classified r hold).imp (hext.classified r) (hext.routed r)
  -- Only `mark_report_classified_activity` writes this status, and it is justified.
  rcases statusWrite_eq_some hw with ⟨-, -, -, -, -, -, hst⟩ | ⟨-, -, -, -, -, -, hst⟩ |
    ⟨i, x, input, r, -, hx, hp, hwrite⟩
  · cases hst
  · cases hst
  · obtain rfl := hco.loaded_id hx hp hwrite
    have hact := h.activity i x hx
    obtain ⟨ρ, activity, phase⟩ := x
    cases activity <;> cases hwrite
    exact hact.imp (hext.classified _) (hext.routed _)

theorem Causal.step (h : Causal s) (hco : Coherent s) (he : Effect s a s') : Causal s' where
  sound := h.sound_step he
  pc _ _ hρ := h.pc_step hco he hρ
  activity _ _ hx := h.activity_step he hx
  returns _ _ _ hx hp := h.returns_step he hx hp
  txn _ _ _ hx hp _ _ hc := h.txn_step he hx hp hc
  announced _ _ _ hx hp _ _ _ _ _ _ hact := h.announced_step he hx hp hact
  classifications := h.classifications_step he
  queueItems := h.queueItems_step he
  messages _ hm := h.messages_step he hm
  order _ _ _ hm hp := h.order_step he hm hp
  classified _ hs := h.classified_step hco he hs

theorem causal_of_reachable (h : machine.Reachable s) : Causal s :=
  h.invariant (fun h0 => h0 ▸ causal_empty)
    fun hr hs hstep => hs.step (coherent_of_reachable hr) (effect_of_step hstep)

/-! ## What stored and published results imply -/

theorem upserts_path {t : System} (hp : machine.Path (fun _ _ => True) s t) :
    Upserts.machine.Path (fun _ _ => True) s.upserts t.upserts :=
  hp.image System.upserts fun hs => (effect_of_step hs).upserts

theorem row_of_path {t : System} {row : Report} (hp : machine.Path (fun _ _ => True) s t)
    (h : row ∈ s.reports) : ∃ row' ∈ t.reports, row.SameContent row' := by
  refine hp.invariant (I := fun t => ∃ row' ∈ t.reports, row.SameContent row')
    ⟨row, h, .refl row⟩ fun _ hrow _ hs => ?_
  obtain ⟨row', hrow', hsame⟩ := hrow
  obtain ⟨row'', hrow'', hsame'⟩ := (effect_of_step hs).row_kept hrow'
  exact ⟨row'', hrow'', hsame.trans hsame'⟩

/-- **The causal chain of results.** In every reachable state: every item a queue listing
shows has its classification, whose category it shows; a report read as classified has both
rows in every later state, so however much later the classification is read it is there; a
`report.triaged` message means that both rows are committed, and a `queue.routed` message has a
`report.triaged` message of its report before it; and no row of any of the three tables is ever
removed, nor does its id or its report change. -/
theorem causal_chain (hs : machine.Reachable s) :
    (∀ p ∈ s.upserts.joinClassifications, ∃ c ∈ s.upserts.classifications.rows,
      p.2 = some c ∧ c.reportId = p.1.reportId ∧ (queueItemPayload p.1 p.2).category = c.category) ∧
    (∀ r row, s.getReport r = some row → row.status = ReportStatus.classified.value →
      ∀ t, machine.Path (fun _ _ => True) s t →
        (t.upserts.classificationOf r).isSome ∧ t.upserts.Routed r) ∧
    ((∀ m ∈ s.stream, ∀ e, m.payload = .triaged e →
        s.upserts.Classified e.reportId ∧ s.upserts.Routed e.reportId) ∧
      ∀ (i : ℕ) (m : Message) (e : QueueRoutedEvent), s.stream[i]? = some m →
        m.payload = .queueRouted e → ∃ m' ∈ s.stream.take i, ∃ e', m'.payload = .triaged e' ∧
          e'.reportId = e.reportId) ∧
    (∀ t, machine.Path (fun _ _ => True) s t →
      (s.upserts.classifications.rows.map fun c => (c.id, c.reportId)) <+:
          (t.upserts.classifications.rows.map fun c => (c.id, c.reportId)) ∧
        (s.upserts.queueItems.rows.map fun i => (i.id, i.reportId)) <+:
          (t.upserts.queueItems.rows.map fun i => (i.id, i.reportId)) ∧
        ∀ row ∈ s.reports, ∃ row' ∈ t.reports, row.SameContent row') := by
  have h := causal_of_reachable hs
  refine ⟨fun p hp => ?_, fun r row hrow hst t ht => ?_,
    ⟨fun m hm e hp => ?_, fun i m e hm hp => h.order i m e hm hp⟩, fun t ht => ?_⟩
  · obtain ⟨item, hitem, rfl⟩ := List.mem_map.mp hp
    obtain ⟨c, hc⟩ := Option.isSome_iff_exists.mp
      (h.queueItems.rows item hitem).2.1.classificationOf
    obtain ⟨hmem, hid⟩ := Upserts.classificationOf_some hc
    refine ⟨c, hmem, hc, hid, ?_⟩
    simp [queueItemPayload, hc]
  · have hrows := h.classified r (by rw [status, hrow, ← hst]; rfl)
    have hpath := upserts_path ht
    exact ⟨(hrows.1.path h.sound hpath).classificationOf, hrows.2.path h.sound hpath⟩
  · obtain ⟨-, hc, hq, -⟩ := h.messages m hm
    rw [hp] at hc hq
    exact ⟨hc, hq⟩
  · have hpath := upserts_path ht
    exact ⟨Upsert.ids_mono_of_path h.sound.classifications
        (Upserts.classifications_path hpath),
      Upsert.ids_mono_of_path h.sound.queueItems (Upserts.queueItems_path hpath),
      fun row hrow => row_of_path ht hrow⟩

omit [UnicodeData] in
/-- After a clean run both rows of the report are there. -/
theorem causal_chain_cleanRun : ∃ (_ : UnicodeData) (s : System), machine.Reachable s ∧
    s.stream.length = 2 ∧ (s.upserts.classificationOf "r").isSome ∧ s.upserts.Routed "r" := by
  let _ := asciiUnicode
  have hrun : ((machine.run empty (Sample.create 0 "r" ++ Sample.cleanRun 0 0)).any fun s =>
      s.stream.length = 2 && s.status "r" = some ReportStatus.classified.value) = true := by
    decide +kernel
  obtain ⟨s, hs, hp⟩ := Machine.Along.exists_of_runIf rfl hrun
  simp only [Bool.and_eq_true, decide_eq_true_eq] at hp
  obtain ⟨row, hrow, hst⟩ := Option.map_eq_some_iff.mp hp.2
  exact ⟨_, s, hs, hp.1, (causal_chain hs).2.1 "r" row hrow hst s .refl⟩

/-- **Results are those of the rules.** In every reachable state: every classification row
belongs to a stored report and has all six values the rules give for it; the queue name of
every queue item is the routed queue of these; every message carries the same values; and no
classification goes without review unless its category is abuse or spam. -/
theorem results_are_triage (hs : machine.Reachable s) :
    (∀ c ∈ s.upserts.classifications.rows, ∃ row, s.getReport c.reportId = some row ∧
      triage row.load = ⟨c.category, c.priority, c.requiresReview, c.confidence,
        c.reasoningSummary, c.routedQueue⟩) ∧
    (∀ i ∈ s.upserts.queueItems.rows, ∃ row, s.getReport i.reportId = some row ∧
      (triage row.load).routedQueue = i.queueName) ∧
    (∀ m ∈ s.stream, ∃ row, s.getReport m.payload.reportId = some row ∧
      match m.payload with
      | .triaged e => (triage row.load).category = e.category ∧
          (triage row.load).priority = e.priority ∧
          (triage row.load).requiresReview = e.requiresReview ∧
          (triage row.load).confidence = e.confidence
      | .queueRouted e => (triage row.load).routedQueue = e.queueName) ∧
    (∀ c ∈ s.upserts.classifications.rows, c.requiresReview = false →
      c.category = "abuse" ∨ c.category = "spam") := by
  have h := causal_of_reachable hs
  have hrows : ∀ c ∈ s.upserts.classifications.rows, ∃ row, s.getReport c.reportId = some row ∧
      triage row.load = ⟨c.category, c.priority, c.requiresReview, c.confidence,
        c.reasoningSummary, c.routedQueue⟩ := by
    intro c hc
    obtain ⟨report, ⟨row, hrow, rfl⟩, ht⟩ := h.classifications.rows c hc
    exact ⟨row, hrow, ht.symm⟩
  refine ⟨hrows, ?_, ?_, ?_⟩
  · intro i hi
    obtain ⟨⟨t, ⟨report, ⟨row, hrow, rfl⟩, rfl⟩, hq⟩, -⟩ := h.queueItems.rows i hi
    exact ⟨row, hrow, hq⟩
  · intro m hm
    obtain ⟨-, -, -, hpayload⟩ := h.messages m hm
    cases hp : m.payload with
    | triaged e =>
      rw [hp] at hpayload
      obtain ⟨-, summary, queueName, report, ⟨row, hrow, rfl⟩, ht⟩ := hpayload
      exact ⟨row, hrow, by simp only [← ht, and_self]⟩
    | queueRouted e =>
      rw [hp] at hpayload
      obtain ⟨-, -, t, ⟨report, ⟨row, hrow, rfl⟩, rfl⟩, hq⟩ := hpayload
      exact ⟨row, hrow, hq⟩
  · intro c hc hreview
    obtain ⟨row, -, ht⟩ := hrows c hc
    have hcategory := category_of_not_requiresReview (by rw [ht]; exact hreview)
    rw [ht] at hcategory
    exact hcategory

omit [UnicodeData] in
/-- After a clean run there is a classification, and it is the result of the rules. -/
theorem results_are_triage_cleanRun : ∃ (_ : UnicodeData) (s : System), machine.Reachable s ∧
    ∃ c ∈ s.upserts.classifications.rows, ∃ row, s.getReport c.reportId = some row ∧
      triage row.load = ⟨c.category, c.priority, c.requiresReview, c.confidence,
        c.reasoningSummary, c.routedQueue⟩ := by
  let _ := asciiUnicode
  have hrun : ((machine.run empty (Sample.create 0 "r" ++ Sample.cleanRun 0 0)).any fun s =>
      (s.upserts.classificationOf "r").isSome) = true := by decide +kernel
  obtain ⟨s, hs, hp⟩ := Machine.Along.exists_of_runIf rfl hrun
  obtain ⟨c, hc⟩ := Option.isSome_iff_exists.mp hp
  have hmem := (Upserts.classificationOf_some hc).1
  exact ⟨_, s, hs, c, hmem, (results_are_triage hs).1 c hmem⟩

end System

end ReportTriage

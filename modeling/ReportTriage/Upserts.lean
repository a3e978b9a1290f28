import ReportTriage.Lib.Upsert
import ReportTriage.Lib.WriteBack
import ReportTriage.Schema

/-!
# The two upserts

`upsert_classification` and `upsert_queue_item` are select-then-write upserts on `report_id`,
run in a session of their own by `session_scope`: select, flush, commit, and a rollback on
any exception. Both tables with all their transactions form one machine, `Upserts.machine`.
-/

namespace ReportTriage

open WriteBack (column)

/-- The arguments of `upsert_classification`. -/
structure ClassificationArgs where
  reportId : String
  category : String
  priority : String
  requiresReview : Bool
  confidence : ℚ
  reasoningSummary : String
  routedQueue : String
  deriving DecidableEq, Repr

/-- The arguments of `upsert_queue_item`. -/
structure QueueItemArgs where
  reportId : String
  queueName : String
  deriving DecidableEq, Repr

/-- `upsert_classification`. The update branch assigns six columns and the stamp of the
selected row. -/
def upsertClassification :
    Upsert.Spec ReportClassification ClassificationArgs String String Time where
  id := ReportClassification.id
  key := ReportClassification.reportId
  keyOf := ClassificationArgs.reportId
  fresh a newId now :=
    { id := newId
      reportId := a.reportId
      category := a.category
      priority := a.priority
      requiresReview := a.requiresReview
      confidence := a.confidence
      reasoningSummary := a.reasoningSummary
      routedQueue := a.routedQueue
      createdAt := now
      updatedAt := now }
  overwrite a now existing stored :=
    { stored with
      category := column existing.category a.category stored.category
      priority := column existing.priority a.priority stored.priority
      requiresReview := column existing.requiresReview a.requiresReview stored.requiresReview
      confidence := column existing.confidence a.confidence stored.confidence
      reasoningSummary :=
        column existing.reasoningSummary a.reasoningSummary stored.reasoningSummary
      routedQueue := column existing.routedQueue a.routedQueue stored.routedQueue
      updatedAt := column existing.updatedAt now stored.updatedAt }
  id_fresh _ _ _ := rfl
  key_fresh _ _ _ := rfl
  id_overwrite _ _ _ _ := rfl
  key_overwrite _ _ _ _ := rfl

/-- `upsert_queue_item`. The update branch puts the item back to pending and unassigned, at
the end of its queue. -/
def upsertQueueItem : Upsert.Spec ReviewQueueItem QueueItemArgs String String Time where
  id := ReviewQueueItem.id
  key := ReviewQueueItem.reportId
  keyOf := QueueItemArgs.reportId
  fresh a newId now :=
    { id := newId
      reportId := a.reportId
      queueName := a.queueName
      queueStatus := "pending"
      assignedTo := none
      enqueuedAt := now
      updatedAt := now }
  overwrite a now existing stored :=
    { stored with
      queueName := column existing.queueName a.queueName stored.queueName
      queueStatus := column existing.queueStatus "pending" stored.queueStatus
      assignedTo := column existing.assignedTo none stored.assignedTo
      enqueuedAt := column existing.enqueuedAt now stored.enqueuedAt
      updatedAt := column existing.updatedAt now stored.updatedAt }
  id_fresh _ _ _ := rfl
  key_fresh _ _ _ := rfl
  id_overwrite _ _ _ _ := rfl
  key_overwrite _ _ _ _ := rfl

/-- A call of one of the two. -/
inductive UpsertCall
  | classification (args : ClassificationArgs)
  | queueItem (args : QueueItemArgs)

abbrev ClassificationTable := Upsert.Table ReportClassification ClassificationArgs
abbrev QueueTable := Upsert.Table ReviewQueueItem QueueItemArgs

/-- `report_classifications` and `review_queue_items`, with every upsert ever begun. -/
structure Upserts where
  classifications : ClassificationTable
  queueItems : QueueTable

namespace Upserts

inductive Action
  | classification (a : Upsert.Action ClassificationArgs String Time)
  | queueItem (a : Upsert.Action QueueItemArgs String Time)

def empty : Upserts := ⟨⟨[], []⟩, ⟨[], []⟩⟩

def step (u : Upserts) : Action → Option Upserts
  | .classification a =>
    (u.classifications.step upsertClassification a).map fun T => { u with classifications := T }
  | .queueItem a => (u.queueItems.step upsertQueueItem a).map fun T => { u with queueItems := T }

/-- The next transaction of the table a call is about. -/
def nextTxn (u : Upserts) : UpsertCall → ℕ
  | .classification _ => u.classifications.txns.length
  | .queueItem _ => u.queueItems.txns.length

/-- How transaction `t` of a call ended, if it has. -/
def ended (u : Upserts) (t : ℕ) : UpsertCall → Option (Option Upsert.Cause)
  | .classification _ => u.classifications.txns[t]?.bind fun x => x.phase.ended
  | .queueItem _ => u.queueItems.txns[t]?.bind fun x => x.phase.ended

end Upserts

/-! ### The statements of a call -/

namespace UpsertCall

/-- The report whose row a call writes. -/
def reportId : UpsertCall → String
  | classification args => args.reportId
  | queueItem args => args.reportId

def begin : UpsertCall → Upserts.Action
  | classification args => .classification (.begin args)
  | queueItem args => .queueItem (.begin args)

def advance (t : ℕ) (newId : String) (now : Time) : UpsertCall → Upserts.Action
  | classification _ => .classification (.advance t newId now)
  | queueItem _ => .queueItem (.advance t newId now)

def fail (t : ℕ) : UpsertCall → Upserts.Action
  | classification _ => .classification (.fail t)
  | queueItem _ => .queueItem (.fail t)

end UpsertCall

namespace Upserts

/-! ### The machine -/

/-- Two tables that meet their constraints, with no upsert begun yet. -/
def machine : Machine Upserts Action where
  init u := (Upsert.machine upsertClassification).init u.classifications ∧
    (Upsert.machine upsertQueueItem).init u.queueItems
  step := step

variable {u v w : Upserts} {a : Action}

theorem step_classification {a : Upsert.Action ClassificationArgs String Time}
    (h : u.step (.classification a) = some v) :
    u.classifications.step upsertClassification a = some v.classifications ∧
      v.queueItems = u.queueItems := by
  obtain ⟨T, hT, rfl⟩ := Option.map_eq_some_iff.mp h
  exact ⟨hT, rfl⟩

theorem step_queueItem {a : Upsert.Action QueueItemArgs String Time}
    (h : u.step (.queueItem a) = some v) :
    u.queueItems.step upsertQueueItem a = some v.queueItems ∧
      v.classifications = u.classifications := by
  obtain ⟨T, hT, rfl⟩ := Option.map_eq_some_iff.mp h
  exact ⟨hT, rfl⟩

/-- Seen from one table, the statements on the other do not happen. -/
theorem classifications_path (h : machine.Path (fun _ _ => True) u v) :
    (Upsert.machine upsertClassification).Path (fun _ _ => True) u.classifications
      v.classifications := by
  refine h.image Upserts.classifications fun {t a w} hs => ?_
  cases a with
  | classification a => exact .inr ⟨a, (step_classification hs).1⟩
  | queueItem a => exact .inl (step_queueItem hs).2

theorem queueItems_path (h : machine.Path (fun _ _ => True) u v) :
    (Upsert.machine upsertQueueItem).Path (fun _ _ => True) u.queueItems v.queueItems := by
  refine h.image Upserts.queueItems fun {t a w} hs => ?_
  cases a with
  | classification a => exact .inl (step_classification hs).2
  | queueItem a => exact .inr ⟨a, (step_queueItem hs).1⟩

/-- Both tables meet their constraints. -/
structure Sound (u : Upserts) : Prop where
  classifications : Upsert.Sound upsertClassification u.classifications
  queueItems : Upsert.Sound upsertQueueItem u.queueItems

theorem sound_of_init (h : machine.init u) : u.Sound :=
  ⟨Upsert.sound_of_init h.1, Upsert.sound_of_init h.2⟩

theorem Sound.step (h : u.Sound) (hs : u.step a = some v) : v.Sound := by
  cases a with
  | classification a =>
    obtain ⟨hT, hq⟩ := step_classification hs
    exact ⟨(Upsert.effect_of_step hT).sound h.classifications, hq ▸ h.queueItems⟩
  | queueItem a =>
    obtain ⟨hT, hc⟩ := step_queueItem hs
    exact ⟨hc ▸ h.classifications, (Upsert.effect_of_step hT).sound h.queueItems⟩

theorem Sound.path (h : u.Sound) (hp : machine.Path (fun _ _ => True) u v) : v.Sound :=
  hp.invariant h fun _ hw _ hs => hw.step hs

/-! ### What a call leaves -/

/-- The report has a classification row. -/
def Classified (u : Upserts) (r : String) : Prop := ∃ c ∈ u.classifications.rows, c.reportId = r

/-- The report has a queue item. -/
def Routed (u : Upserts) (r : String) : Prop := ∃ i ∈ u.queueItems.rows, i.reportId = r

/-- Transaction `t` runs this call. -/
def HasTxn (u : Upserts) (t : ℕ) : UpsertCall → Prop
  | .classification args => ∃ x, u.classifications.txns[t]? = some x ∧ x.args = args
  | .queueItem args => ∃ x, u.queueItems.txns[t]? = some x ∧ x.args = args

/-- The row a call is about is there. -/
def Holds (u : Upserts) : UpsertCall → Prop
  | .classification args => u.Classified args.reportId
  | .queueItem args => u.Routed args.reportId

theorem classified_iff {r : String} :
    u.Classified r ↔ ∃ p ∈ u.classifications.ids upsertClassification, p.2 = r := by
  simp [Classified, Upsert.Table.ids, upsertClassification]

theorem routed_iff {r : String} :
    u.Routed r ↔ ∃ p ∈ u.queueItems.ids upsertQueueItem, p.2 = r := by
  simp [Routed, Upsert.Table.ids, upsertQueueItem]

theorem Classified.path {r : String} (h : u.Classified r) (hs : u.Sound)
    (hp : machine.Path (fun _ _ => True) u v) : v.Classified r := by
  obtain ⟨p, hmem, hr⟩ := classified_iff.mp h
  have hmono := Upsert.ids_mono_of_path hs.classifications (classifications_path hp)
  exact classified_iff.mpr ⟨p, hmono.subset hmem, hr⟩

theorem Routed.path {r : String} (h : u.Routed r) (hs : u.Sound)
    (hp : machine.Path (fun _ _ => True) u v) : v.Routed r := by
  obtain ⟨p, hmem, hr⟩ := routed_iff.mp h
  have hmono := Upsert.ids_mono_of_path hs.queueItems (queueItems_path hp)
  exact routed_iff.mpr ⟨p, hmono.subset hmem, hr⟩

theorem HasTxn.step {t : ℕ} {call : UpsertCall} (h : u.HasTxn t call) (hs : u.step a = some v) :
    v.HasTxn t call := by
  cases call with
  | classification args =>
    obtain ⟨x, hx, rfl⟩ := h
    cases a with
    | classification b => exact (Upsert.effect_of_step (step_classification hs).1).args hx
    | queueItem b => exact ⟨x, (step_queueItem hs).2 ▸ hx, rfl⟩
  | queueItem args =>
    obtain ⟨x, hx, rfl⟩ := h
    cases a with
    | classification b => exact ⟨x, (step_classification hs).2 ▸ hx, rfl⟩
    | queueItem b => exact (Upsert.effect_of_step (step_queueItem hs).1).args hx

theorem hasTxn_begin {call : UpsertCall} (hs : u.step call.begin = some v) :
    v.HasTxn (u.nextTxn call) call := by
  cases call with
  | classification args => exact ⟨_, Upsert.begun_of_step (step_classification hs).1, rfl⟩
  | queueItem args => exact ⟨_, Upsert.begun_of_step (step_queueItem hs).1, rfl⟩

/-- Once a call has committed, the row it is about is there. -/
theorem holds_of_ended {t : ℕ} {call : UpsertCall} (hs : u.Sound) (h : u.HasTxn t call)
    (hended : u.ended t call = some none) : u.Holds call := by
  cases call with
  | classification args =>
    obtain ⟨x, hx, rfl⟩ := h
    rw [ended, hx] at hended
    exact classified_iff.mpr (hs.classifications.exists_key_of_ended hx hended)
  | queueItem args =>
    obtain ⟨x, hx, rfl⟩ := h
    rw [ended, hx] at hended
    exact routed_iff.mpr (hs.queueItems.exists_key_of_ended hx hended)

/-- A statement of a call leaves the rows of every other report as they were. -/
theorem frame {call : UpsertCall} (h : u.Sound) (hs : u.step a = some v)
    (ha : a = call.begin ∨
      ∃ t, u.HasTxn t call ∧ (a = call.fail t ∨ ∃ newId now, a = call.advance t newId now)) :
    ((v.classifications.rows.filter fun c => c.reportId ≠ call.reportId) =
        u.classifications.rows.filter fun c => c.reportId ≠ call.reportId) ∧
      (v.queueItems.rows.filter fun i => i.reportId ≠ call.reportId) =
        u.queueItems.rows.filter fun i => i.reportId ≠ call.reportId := by
  cases call with
  | classification args =>
    obtain ⟨b, rfl, hb⟩ : ∃ b, a = .classification b ∧
        ∀ x, u.classifications.txns[b.txn u.classifications]? = some x → x.args = args := by
      rcases ha with rfl | ⟨t, ⟨y, hy, hargs⟩, rfl | ⟨newId, now, rfl⟩⟩
      · exact ⟨_, rfl, fun x hx => by simp [Upsert.Action.txn] at hx⟩
      · exact ⟨_, rfl, fun x hx => by cases hy.symm.trans hx; exact hargs⟩
      · exact ⟨_, rfl, fun x hx => by cases hy.symm.trans hx; exact hargs⟩
    obtain ⟨hT, hq⟩ := step_classification hs
    exact ⟨(Upsert.effect_of_step hT).frame h.classifications fun x hx => by rw [hb x hx]; rfl,
      by rw [hq]⟩
  | queueItem args =>
    obtain ⟨b, rfl, hb⟩ : ∃ b, a = .queueItem b ∧
        ∀ x, u.queueItems.txns[b.txn u.queueItems]? = some x → x.args = args := by
      rcases ha with rfl | ⟨t, ⟨y, hy, hargs⟩, rfl | ⟨newId, now, rfl⟩⟩
      · exact ⟨_, rfl, fun x hx => by simp [Upsert.Action.txn] at hx⟩
      · exact ⟨_, rfl, fun x hx => by cases hy.symm.trans hx; exact hargs⟩
      · exact ⟨_, rfl, fun x hx => by cases hy.symm.trans hx; exact hargs⟩
    obtain ⟨hT, hc⟩ := step_queueItem hs
    exact ⟨by rw [hc],
      (Upsert.effect_of_step hT).frame h.queueItems fun x hx => by rw [hb x hx]; rfl⟩

/-! ## One row per report -/

/-- The transaction of action `a`, taken in `u`, has failed by `w`. -/
def FailsBy (u : Upserts) (a : Action) (w : Upserts) : Prop :=
  match a with
  | .classification b => ∃ x c, w.classifications.txns[b.txn u.classifications]? = some x ∧
      x.phase = .failed c
  | .queueItem b => ∃ x c, w.queueItems.txns[b.txn u.queueItems]? = some x ∧ x.phase = .failed c

/-- An upsert that is over and did not fail for a reason of its own: it has committed, or
lost a race to insert the row. -/
def Settled {ρ α : Type} (x : Upsert.Txn ρ α) : Prop :=
  x.phase = .committed ∨ x.phase = .failed .uniqueKey

/-- **One row per report, with a stable identity, under concurrent upserts.** From any two
tables that meet their constraints, in every interleaving of the selects, flushes and commits
of any number of upserts: a report has at most one row in each table; the ids and report ids
of the rows never change, nor does a row go; if the report had no row at the start, an upsert
of it that settles means that one has committed, and while some upsert is not over some
statement can run; and no statement of a transaction that fails changes either table. -/
theorem one_row_per_report {d u : Upserts} (hd : machine.init d)
    (hu : machine.Path (fun _ _ => True) d u) :
    (∀ r, (u.classifications.rows.filter fun c => c.reportId = r).length ≤ 1 ∧
      (u.queueItems.rows.filter fun i => i.reportId = r).length ≤ 1) ∧
    (∀ v, machine.Path (fun _ _ => True) u v →
      (u.classifications.rows.map fun c => (c.id, c.reportId)) <+:
        (v.classifications.rows.map fun c => (c.id, c.reportId)) ∧
      (u.queueItems.rows.map fun i => (i.id, i.reportId)) <+:
        (v.queueItems.rows.map fun i => (i.id, i.reportId))) ∧
    ((∀ x ∈ u.classifications.txns, Settled x →
      (∀ c ∈ d.classifications.rows, c.reportId ≠ x.args.reportId) →
      ∃ y ∈ u.classifications.txns, y.phase = .committed ∧ y.args.reportId = x.args.reportId) ∧
    (∀ x ∈ u.queueItems.txns, Settled x →
      (∀ i ∈ d.queueItems.rows, i.reportId ≠ x.args.reportId) →
      ∃ y ∈ u.queueItems.txns, y.phase = .committed ∧ y.args.reportId = x.args.reportId) ∧
    (∀ newId now,
      ((∀ x ∈ u.classifications.txns, x.phase = .committed ∨ ∃ c, x.phase = .failed c) ∨
        ∃ t, (u.step (.classification (.advance t newId now))).isSome) ∧
      ((∀ x ∈ u.queueItems.txns, x.phase = .committed ∨ ∃ c, x.phase = .failed c) ∨
        ∃ t, (u.step (.queueItem (.advance t newId now))).isSome))) ∧
    (∀ a v w, u.step a = some v → machine.Path (fun _ _ => True) v w → u.FailsBy a w →
      v.classifications.rows = u.classifications.rows ∧
        v.queueItems.rows = u.queueItems.rows) := by
  have hsound : u.Sound := (sound_of_init hd).path hu
  have hdc := (sound_of_init hd).classifications
  have hdq := (sound_of_init hd).queueItems
  refine ⟨fun r => ⟨hsound.classifications.length_filter_key_le r,
      hsound.queueItems.length_filter_key_le r⟩, fun v hv => ?_, ⟨?_, ?_, fun newId now => ?_⟩, ?_⟩
  · exact ⟨Upsert.ids_mono_of_path hsound.classifications (classifications_path hv),
      Upsert.ids_mono_of_path hsound.queueItems (queueItems_path hv)⟩
  · intro x hx hsettled hnone
    exact Upsert.settled_winner hdc (classifications_path hu) hx hsettled hnone
  · intro x hx hsettled hnone
    exact Upsert.settled_winner hdq (queueItems_path hu) hx hsettled hnone
  · simp only [step, Option.isSome_map]
    exact ⟨Upsert.progress u.classifications newId now, Upsert.progress u.queueItems newId now⟩
  · intro a v w hs hw hfails
    cases a with
    | classification b =>
      obtain ⟨x, c, hx, hc⟩ := hfails
      obtain ⟨hT, hq⟩ := step_classification hs
      exact ⟨Upsert.rows_eq_of_failed hT (classifications_path hw) hx hc, hq ▸ rfl⟩
    | queueItem b =>
      obtain ⟨x, c, hx, hc⟩ := hfails
      obtain ⟨hT, hcl⟩ := step_queueItem hs
      exact ⟨hcl ▸ rfl, Upsert.rows_eq_of_failed hT (queueItems_path hw) hx hc⟩

/-- Two upserts of one report that both find no row; the second flushes its INSERT after the
first has committed. -/
def insertRace : List Action :=
  let args : ClassificationArgs := ⟨"r", "spam", "medium", false, 0.75, "", "spam-review"⟩
  [.classification (.begin args), .classification (.begin args),
    .classification (.advance 0 "c" 1), .classification (.advance 1 "c'" 2),
    .classification (.advance 0 "c" 3), .classification (.advance 0 "c" 4),
    .classification (.advance 1 "c'" 5)]

/-- After the race the second transaction has failed, and there is one row. -/
theorem one_row_per_report_insertRace : ∃ u : Upserts,
    machine.Path (fun _ _ => True) empty u ∧
    u.ended 1 (.classification ⟨"r", "", "", false, 0, "", ""⟩) = some (some .uniqueKey) ∧
    (u.classifications.rows.filter fun c => c.reportId = "r").length ≤ 1 := by
  have hinit : machine.init empty := ⟨⟨rfl, List.Pairwise.nil⟩, ⟨rfl, List.Pairwise.nil⟩⟩
  have hrun : ((machine.run empty insertRace).any fun u =>
      u.ended 1 (.classification ⟨"r", "", "", false, 0, "", ""⟩) =
        some (some .uniqueKey)) = true := by decide +kernel
  obtain ⟨u, hu, hp⟩ := (Option.any_eq_true _ _).mp hrun
  have hpath := Machine.Path.of_runIf hu
  exact ⟨u, hpath, of_decide_eq_true hp, ((one_row_per_report hinit hpath).1 "r").1⟩

end Upserts

end ReportTriage

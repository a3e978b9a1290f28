import ReportTriage.Lib.Machine
import ReportTriage.Workflow

/-!
# The control law of a run

Seen from the workflow an activity is a list of answers, one an attempt, and a run is decided by
them. `Behaviour` is any such table of answers, `Execution` a run with the log of the attempts
it has made.

## Main definitions

* `Behaviour`, `Execution.machine` — every way the activities can answer, and the run that
  follows.
* `Execution.Step`, `step_of_next` — everything one attempt can do.
* `ControlLaw`, `Execution.control_law` — what holds of every run under every behaviour.
-/

namespace ReportTriage

/-! ## Activities by name -/

/-- The ten activities. -/
inductive ActivityName
  | loadReport
  | markReportProcessing
  | classifyReport
  | scorePriority
  | decideReview
  | persistClassification
  | routeQueue
  | publishTriageEvents
  | markReportClassified
  | markReportFailed
  deriving DecidableEq, Repr

/-- The nine of a triage, in the order `run` awaits them. -/
def triageOrder : List ActivityName :=
  [.loadReport, .markReportProcessing, .classifyReport, .scorePriority, .decideReview,
    .persistClassification, .routeQueue, .publishTriageEvents, .markReportClassified]

theorem idxOf_triageOrder_injective : Function.Injective triageOrder.idxOf := by
  intro p q h
  cases p <;> cases q <;> first | rfl | exact absurd h (by decide)

/-- `q` comes right after `p` in a triage. -/
def Precedes (p q : ActivityName) : Prop := (p, q) ∈ triageOrder.zip triageOrder.tail

instance (p q : ActivityName) : Decidable (Precedes p q) := inferInstanceAs (Decidable (_ ∈ _))

theorem idxOf_of_precedes {p q : ActivityName} (h : Precedes p q) :
    triageOrder.idxOf q = triageOrder.idxOf p + 1 := by
  cases p <;> cases q <;> first | rfl | exact absurd h (by decide)

theorem not_precedes_markReportFailed (p : ActivityName) : ¬ Precedes p .markReportFailed := by
  cases p <;> decide

def Activity.name : Activity → ActivityName
  | loadReport _ => .loadReport
  | markReportProcessing _ => .markReportProcessing
  | classifyReport _ => .classifyReport
  | scorePriority _ _ => .scorePriority
  | decideReview _ _ _ => .decideReview
  | persistClassification _ _ _ _ _ _ => .persistClassification
  | routeQueue _ _ => .routeQueue
  | publishTriageEvents _ _ _ _ _ _ => .publishTriageEvents
  | markReportClassified _ => .markReportClassified
  | markReportFailed _ => .markReportFailed

/-- The value is of the type the activity is declared to return. -/
def Activity.HasType : Activity → Value → Prop
  | loadReport _, .report _ => True
  | classifyReport _, .classification _ => True
  | scorePriority _ _, .text _ => True
  | decideReview _ _ _, .flag _ => True
  | persistClassification _ _ _ _ _ _, .text _ => True
  | markReportProcessing _, .null | routeQueue _ _, .null => True
  | publishTriageEvents _ _ _ _ _ _, .null => True
  | markReportClassified _, .null | markReportFailed _, .null => True
  | _, _ => False

namespace WorkflowPc

variable {pc pc' : WorkflowPc} {r : String} {call : ActivityCall}

theorem idxOf_call (h : pc.call r = some call) :
    triageOrder.idxOf call.activity.name = pc.rank := by
  cases pc <;> cases h <;> rfl

/-- A run goes on with every value the awaited activity can return. -/
theorem exists_resume {v : Value} (h : pc.call r = some call) (hv : call.activity.HasType v) :
    ∃ pc', pc.resume r v = some pc' := by
  cases pc <;> cases h <;> cases v <;> first | exact ⟨_, rfl⟩ | exact hv.elim

/-- Only the `except` block awaits `mark_report_failed_activity`. -/
theorem name_call (h : pc.call r = some call) :
    call.activity.name = .markReportFailed ↔ pc.isFailing = true := by
  cases pc <;> cases h <;> simp [Activity.name, isFailing]

theorem rank_of_failing (h : pc.call r = some call) (hfail : pc.isFailing = true) :
    pc.rank = 9 := by
  cases pc <;> cases h <;> first | rfl | cases hfail

/-- What the run has returned, if it has. -/
def result? : WorkflowPc → Option RunResult
  | returned result => some result
  | _ => none

theorem eq_returned_of_result {result : RunResult} (h : pc.result? = some result) :
    pc = returned result := by
  cases pc <;> cases h
  rfl

/-- **Everything the `ActivityError` of the awaited activity can do**: leave the `except` block,
be passed over by the publishing, or be caught. -/
theorem raise_cases (h : pc.call r = some call) (f : Failure) :
    (pc.isFailing = true ∧ pc.raise f = markFailedRaised f) ∨
    (pc.isFailing = false ∧ call.activity.name = .publishTriageEvents ∧
      (pc.raise f).isFailing = false ∧ (pc.raise f).rank = pc.rank + 1) ∨
    (pc.isFailing = false ∧ call.activity.name ≠ .publishTriageEvents ∧
      call.activity.name ≠ .markReportFailed ∧ pc.raise f = markFailed f) := by
  cases pc <;> cases h <;> simp [isFailing, Activity.name, raise, rank]

end WorkflowPc

/-! ## Behaviours and executions -/

/-- How each attempt of each activity ends. -/
structure Behaviour where
  answer : Activity → ℕ → Except Failure Value
  returns : ∀ activity n v, answer activity n = .ok v → activity.HasType v

namespace Execution

/-- An attempt that was made, and how it ended. -/
structure Entry where
  call : ActivityCall
  number : ℕ
  outcome : Except Failure Value

def Entry.name (x : Entry) : ActivityName := x.call.activity.name

def Entry.Succeeded (x : Entry) : Prop := ∃ v, x.outcome = .ok v

/-- The activity fails for good with `f`: no further attempt follows. -/
def Entry.FailsWith (x : Entry) (f : Failure) : Prop :=
  x.outcome = .error f ∧
    ¬ (x.call.retryPolicy.allows x.number = true ∧ x.call.retryPolicy.retries f = true)

def Entry.GaveUp (x : Entry) : Prop := ∃ f, x.FailsWith f

/-- The activities in the order of their first attempts. -/
def started (log : List Entry) : List ActivityName :=
  (log.filter fun x => x.number = 1).map Entry.name

end Execution

/-- A run with the attempts it has made. -/
structure Execution where
  run : Run
  log : List Execution.Entry

namespace Execution

/-- The next attempt of `call`. -/
def entry (e : Execution) (b : Behaviour) (call : ActivityCall) : Entry :=
  ⟨call, e.run.attempts + 1, b.answer call.activity (e.run.attempts + 1)⟩

/-- Make the next attempt of the awaited activity and go on with its answer. -/
def next (b : Behaviour) (e : Execution) : Option Execution := do
  let call ← e.run.pc.call e.run.reportId
  let x := e.entry b call
  let run := { e.run with attempts := x.number }
  match x.outcome with
  | .ok v => (run.succeeded v).map (⟨·, e.log ++ [x]⟩)
  | .error f => some ⟨run.attemptFailed f, e.log ++ [x]⟩

/-- The run of report `r` under a behaviour. -/
def machine (b : Behaviour) (r : String) : Machine Execution Unit where
  init e := e = ⟨Run.start r, []⟩
  step e _ := e.next b

/-- **Everything one attempt can do.** -/
inductive Step (b : Behaviour) (e : Execution) : Execution → Prop
  | succeeded {call : ActivityCall} {v : Value} {pc : WorkflowPc}
      (hcall : e.run.pc.call e.run.reportId = some call) (hv : (e.entry b call).outcome = .ok v)
      (hresume : e.run.pc.resume e.run.reportId v = some pc) :
      Step b e ⟨{ e.run with pc := pc, attempts := 0, outstanding := none },
        e.log ++ [e.entry b call]⟩
  | retried {call : ActivityCall} {f : Failure}
      (hcall : e.run.pc.call e.run.reportId = some call) (hf : (e.entry b call).outcome = .error f)
      (hlt : e.run.attempts + 1 < 3) (hretry : call.retryPolicy.retries f = true) :
      Step b e ⟨{ e.run with attempts := e.run.attempts + 1, outstanding := none },
        e.log ++ [e.entry b call]⟩
  | gaveUp {call : ActivityCall} {f : Failure}
      (hcall : e.run.pc.call e.run.reportId = some call) (hf : (e.entry b call).FailsWith f) :
      Step b e ⟨{ e.run with pc := e.run.pc.raise f, attempts := 0, outstanding := none },
        e.log ++ [e.entry b call]⟩

variable {b b' : Behaviour} {r : String} {e e' : Execution}

@[simp] theorem name_entry (call : ActivityCall) :
    (e.entry b call).name = call.activity.name := rfl

theorem step_of_next (h : e.next b = some e') : Step b e e' := by
  obtain ⟨call, hcall, h⟩ := Option.bind_eq_some_iff.mp h
  cases hout : (e.entry b call).outcome with
  | ok v =>
    simp only [hout] at h
    obtain ⟨run, hrun, rfl⟩ := Option.map_eq_some_iff.mp h
    obtain ⟨pc, hresume, rfl⟩ := Option.map_eq_some_iff.mp hrun
    exact .succeeded hcall hout hresume
  | error f =>
    simp only [hout, Option.some.injEq, Run.attemptFailed, hcall] at h
    subst h
    split
    · rename_i hagain
      rw [Bool.and_eq_true, WorkflowPc.allows_call hcall, decide_eq_true_eq] at hagain
      exact .retried hcall hout hagain.1 hagain.2
    · rename_i hagain
      rw [Bool.and_eq_true] at hagain
      exact .gaveUp hcall ⟨hout, hagain⟩

/-- The log is only added to. -/
theorem log_prefix_of_path (h : (machine b r).Path (fun _ _ => True) e e') : e.log <+: e'.log := by
  refine h.relation (R := fun e e' => e.log <+: e'.log) (fun _ => List.prefix_rfl)
    List.IsPrefix.trans fun _ _ hs => ?_
  cases step_of_next hs with
  | succeeded | retried | gaveUp => exact List.prefix_append _ _

/-! ## The attempts of an activity -/

/-- How many attempts each activity can have had: three where the run is past it, none where it
is still ahead. -/
structure Counted (e : Execution) : Prop where
  attempts_lt : e.run.attempts < 3
  count_le : ∀ name, (e.log.countP fun x => x.name = name) ≤
    if triageOrder.idxOf name < e.run.pc.rank then 3
    else if triageOrder.idxOf name = e.run.pc.rank then e.run.attempts else 0
  length_le : e.log.length ≤ 3 * e.run.pc.rank + e.run.attempts

theorem Counted.le_three (h : Counted e) (name : ActivityName) :
    (e.log.countP fun x => x.name = name) ≤ 3 := by
  have hle := h.count_le name
  have hlt := h.attempts_lt
  split_ifs at hle <;> omega

theorem countP_name_append (log : List Entry) (b : Behaviour) (call : ActivityCall)
    (name : ActivityName) :
    ((log ++ [e.entry b call]).countP fun x => x.name = name) =
      (log.countP fun x => x.name = name) + if call.activity.name = name then 1 else 0 := by
  by_cases h : call.activity.name = name <;> simp [h]

/-- Another attempt of the awaited activity counts for its name alone. -/
theorem Counted.count_append (h : Counted e) {call : ActivityCall}
    (hcall : e.run.pc.call e.run.reportId = some call) (b : Behaviour) (name : ActivityName) :
    ((e.log ++ [e.entry b call]).countP fun x => x.name = name) ≤
      if triageOrder.idxOf name < e.run.pc.rank then 3
      else if triageOrder.idxOf name = e.run.pc.rank then e.run.attempts + 1 else 0 := by
  have hle := h.count_le name
  have hidx := WorkflowPc.idxOf_call hcall
  rw [countP_name_append]
  by_cases hname : call.activity.name = name
  · rw [← hname, hidx, if_neg (Nat.lt_irrefl _), if_pos rfl] at hle ⊢
    rw [if_pos rfl]
    omega
  · rw [if_neg hname]
    split_ifs at hle ⊢ <;> omega

/-- Going on to a later await. -/
theorem Counted.advance (h : Counted e) {call : ActivityCall} {pc : WorkflowPc}
    (hcall : e.run.pc.call e.run.reportId = some call) (hpc : e.run.pc.rank + 1 ≤ pc.rank) :
    Counted ⟨{ e.run with pc := pc, attempts := 0, outstanding := none },
      e.log ++ [e.entry b call]⟩ := by
  have hlt := h.attempts_lt
  refine ⟨Nat.succ_pos 2, ?_, ?_⟩
  · intro name
    have hle := h.count_append hcall b name
    dsimp only
    split_ifs at hle ⊢ <;> omega
  · have hle := h.length_le
    simp only [List.length_append, List.length_singleton]
    omega

theorem Counted.step (h : Counted e) (hs : Step b e e') : Counted e' := by
  cases hs with
  | succeeded hcall hv hresume => exact h.advance hcall (WorkflowPc.rank_resume hresume).ge
  | gaveUp hcall hf => exact h.advance hcall (WorkflowPc.rank_raise _ hcall)
  | @retried call f hcall hf hlt hretry =>
    refine ⟨hlt, fun name => h.count_append hcall b name, ?_⟩
    have hle := h.length_le
    simp only [List.length_append, List.length_singleton]
    omega

theorem counted_of_reachable (h : (machine b r).Reachable e) : Counted e :=
  h.invariant (fun h0 => by subst h0; exact ⟨Nat.succ_pos 2, fun _ => Nat.zero_le _, Nat.zero_le _⟩)
    fun _ hI hs => hI.step (step_of_next hs)

/-! ## The order of first attempts -/

/-- The first attempts follow the order of a triage up to the present await; in the `except`
block, up to the activity that failed. -/
def Ordered (e : Execution) : Prop :=
  if e.run.pc.isFailing then
    ∃ k, started e.log = triageOrder.take k ++
      if e.run.pc.rank = 9 ∧ e.run.attempts = 0 then [] else [.markReportFailed]
  else started e.log = triageOrder.take (e.run.pc.rank + min e.run.attempts 1)

theorem started_append (log : List Entry) (b : Behaviour) (call : ActivityCall) :
    started (log ++ [e.entry b call]) =
      started log ++ if e.run.attempts = 0 then [call.activity.name] else [] := by
  by_cases h : e.run.attempts = 0 <;> simp [started, entry, h, Entry.name]

theorem take_rank_succ {call : ActivityCall} (hcall : e.run.pc.call e.run.reportId = some call)
    (hfail : e.run.pc.isFailing = false) :
    triageOrder.take (e.run.pc.rank + 1) =
      triageOrder.take e.run.pc.rank ++ [call.activity.name] := by
  generalize e.run.pc = pc at hcall hfail
  cases pc <;> cases hcall <;> first | rfl | cases hfail

/-- Once an attempt of the awaited activity is made. -/
theorem Ordered.started_entry (h : Ordered e) {call : ActivityCall}
    (hcall : e.run.pc.call e.run.reportId = some call) :
    if e.run.pc.isFailing then
      ∃ k, started (e.log ++ [e.entry b call]) = triageOrder.take k ++ [.markReportFailed]
    else started (e.log ++ [e.entry b call]) = triageOrder.take (e.run.pc.rank + 1) := by
  simp only [Ordered] at h
  rw [started_append]
  split
  · rename_i hfail
    rw [if_pos hfail] at h
    obtain ⟨k, hk⟩ := h
    have hname := (WorkflowPc.name_call hcall).mpr hfail
    have hrank := WorkflowPc.rank_of_failing hcall hfail
    refine ⟨k, ?_⟩
    by_cases h0 : e.run.attempts = 0 <;> simp [hk, hrank, h0, hname]
  · rename_i hfail
    rw [if_neg hfail] at h
    rw [h, take_rank_succ hcall (Bool.eq_false_of_not_eq_true hfail)]
    by_cases h0 : e.run.attempts = 0
    · simp [h0]
    · rw [if_neg h0, Nat.min_eq_right (Nat.one_le_iff_ne_zero.mpr h0), List.append_nil,
        take_rank_succ hcall (Bool.eq_false_of_not_eq_true hfail)]

theorem Ordered.step (h : Ordered e) (hs : Step b e e') : Ordered e' := by
  cases hs with
  | @succeeded call v pc hcall hv hresume =>
    have hstarted := h.started_entry (b := b) hcall
    have hrank := WorkflowPc.rank_resume hresume
    simp only [Ordered, WorkflowPc.isFailing_resume hresume, hrank, Nat.zero_min, Nat.add_zero]
    split
    · rename_i hfail
      rw [if_pos hfail] at hstarted
      have hle := (WorkflowPc.rank_of_failing hcall hfail).ge
      rwa [if_neg (by omega)]
    · rename_i hfail
      rwa [if_neg hfail] at hstarted
  | @retried call f hcall hf hlt hretry =>
    have hstarted := h.started_entry (b := b) hcall
    have hmin : min (e.run.attempts + 1) 1 = 1 := Nat.min_eq_right (Nat.le_add_left 1 _)
    simpa [Ordered, hmin] using hstarted
  | @gaveUp call f hcall hf =>
    have hstarted := h.started_entry (b := b) hcall
    rcases WorkflowPc.raise_cases hcall f with
      ⟨hfail, hraise⟩ | ⟨hfail, -, hnext, hrank⟩ | ⟨hfail, -, -, hraise⟩
    · rw [if_pos hfail] at hstarted
      simpa [Ordered, hraise, WorkflowPc.isFailing, WorkflowPc.rank] using hstarted
    · rw [hfail, if_neg Bool.false_ne_true] at hstarted
      simpa [Ordered, hnext, hrank] using hstarted
    · rw [hfail, if_neg Bool.false_ne_true] at hstarted
      simp only [Ordered, hraise, WorkflowPc.isFailing, WorkflowPc.rank]
      exact ⟨_, hstarted.trans (List.append_nil _).symm⟩

theorem ordered_of_reachable (h : (machine b r).Reachable e) : Ordered e :=
  h.invariant (fun h0 => by subst h0; rfl) fun _ hI hs => hI.step (step_of_next hs)

/-! ## What is behind an attempt -/

/-- The run is past activity `p`: it succeeded, or was the publishing. -/
def Behind (p : ActivityName) (log : List Entry) : Prop :=
  ∃ y ∈ log, y.name = p ∧ (y.Succeeded ∨ p = .publishTriageEvents ∧ y.GaveUp)

theorem Behind.append {p : ActivityName} {log : List Entry} (h : Behind p log) (x : Entry) :
    Behind p (log ++ [x]) := by
  obtain ⟨y, hy, hp⟩ := h
  exact ⟨y, List.mem_append_left _ hy, hp⟩

/-- Every attempt was made with the activity before it behind, and so will be the next one. -/
structure Sequenced (e : Execution) : Prop where
  log : ∀ pre x, pre ++ [x] <+: e.log → ∀ p, Precedes p x.name → Behind p pre
  next : ∀ call, e.run.pc.call e.run.reportId = some call →
    ∀ p, Precedes p call.activity.name → Behind p e.log

/-- Going on to the next await with the present activity behind. -/
theorem behind_of_advance {call call' : ActivityCall} {pc : WorkflowPc} {p : ActivityName}
    (hcall : e.run.pc.call e.run.reportId = some call)
    (hcall' : pc.call e.run.reportId = some call') (hrank : pc.rank = e.run.pc.rank + 1)
    (hp : Precedes p call'.activity.name)
    (hbehind : (e.entry b call).Succeeded ∨
      call.activity.name = .publishTriageEvents ∧ (e.entry b call).GaveUp) :
    Behind p (e.log ++ [e.entry b call]) := by
  have hname : call.activity.name = p := by
    have h := idxOf_of_precedes hp
    rw [WorkflowPc.idxOf_call hcall', hrank] at h
    exact idxOf_triageOrder_injective ((WorkflowPc.idxOf_call hcall).trans (Nat.succ.inj h))
  exact ⟨_, List.mem_append_right _ (List.mem_singleton_self _), hname, hname ▸ hbehind⟩

theorem Sequenced.step (h : Sequenced e) (hs : Step b e e') : Sequenced e' := by
  have hlog : ∀ call, e.run.pc.call e.run.reportId = some call →
      ∀ pre x, pre ++ [x] <+: e.log ++ [e.entry b call] → ∀ p, Precedes p x.name →
        Behind p pre := by
    intro call hcall pre x hpre p hp
    rcases List.prefix_concat_iff.mp hpre with heq | hpre
    · obtain ⟨rfl, hx⟩ := List.append_inj' heq rfl
      cases hx
      exact h.next call hcall p hp
    · exact h.log pre x hpre p hp
  cases hs with
  | @succeeded call v pc hcall hv hresume =>
    exact ⟨hlog call hcall, fun call' hcall' p hp =>
      behind_of_advance hcall hcall' (WorkflowPc.rank_resume hresume) hp (.inl ⟨v, hv⟩)⟩
  | @retried call f hcall hf hlt hretry =>
    exact ⟨hlog call hcall, fun call' hcall' p hp => (h.next call' hcall' p hp).append _⟩
  | @gaveUp call f hcall hf =>
    refine ⟨hlog call hcall, ?_⟩
    intro call' hcall' p hp
    dsimp only at hcall'
    rcases WorkflowPc.raise_cases hcall f with
      ⟨-, hraise⟩ | ⟨-, hname, -, hrank⟩ | ⟨-, -, -, hraise⟩
    · rw [hraise] at hcall'
      cases hcall'
    · exact behind_of_advance hcall hcall' hrank hp (.inr ⟨hname, f, hf⟩)
    · rw [hraise] at hcall'
      cases hcall'
      exact absurd hp (not_precedes_markReportFailed p)

theorem sequenced_of_reachable (h : (machine b r).Reachable e) : Sequenced e := by
  refine h.invariant (fun h0 => ?_) fun _ hI hs => hI.step (step_of_next hs)
  subst h0
  constructor
  · intro pre x hpre
    simp at hpre
  · intro call hcall p hp
    cases hcall
    have hidx : 0 = triageOrder.idxOf p + 1 := idxOf_of_precedes hp
    omega

/-! ## The `except` block -/

/-- An activity that the `except` block answers for has failed for good. -/
def Entry.Fatal (x : Entry) : Prop :=
  x.name ≠ .publishTriageEvents ∧ x.name ≠ .markReportFailed ∧ x.GaveUp

structure Failing (e : Execution) : Prop where
  isFailing_iff : e.run.pc.isFailing = true ↔ ∃ x ∈ e.log, x.Fatal
  of_marking : ∀ x ∈ e.log, x.name = .markReportFailed → e.run.pc.isFailing = true
  marked : e.run.pc.isFailing = true → e.run.pc.isClosed = true →
    ∃ x ∈ e.log, x.name = .markReportFailed
  after : e.log.Pairwise fun x y => x.Fatal → y.name = .markReportFailed

theorem Failing.after_append (h : Failing e) {call : ActivityCall}
    (hcall : e.run.pc.call e.run.reportId = some call) :
    (e.log ++ [e.entry b call]).Pairwise fun x y => x.Fatal → y.name = .markReportFailed := by
  refine List.pairwise_append.mpr ⟨h.after, List.pairwise_singleton _ _, ?_⟩
  intro x hx y hy hfatal
  rw [List.mem_singleton.mp hy]
  exact (WorkflowPc.name_call hcall).mpr (h.isFailing_iff.mpr ⟨x, hx, hfatal⟩)

/-- An attempt after which the run is in the `except` block just when it was before. -/
theorem Failing.append (h : Failing e) {call : ActivityCall} {run : Run}
    (hcall : e.run.pc.call e.run.reportId = some call)
    (hfail : run.pc.isFailing = e.run.pc.isFailing)
    (hfatal : (e.entry b call).Fatal → e.run.pc.isFailing = true) :
    Failing ⟨run, e.log ++ [e.entry b call]⟩ where
  isFailing_iff := by
    rw [hfail]
    constructor
    · intro hf
      obtain ⟨x, hx, hfx⟩ := h.isFailing_iff.mp hf
      exact ⟨x, List.mem_append_left _ hx, hfx⟩
    · rintro ⟨x, hx, hfx⟩
      rcases List.mem_append.mp hx with hx | hx
      · exact h.isFailing_iff.mpr ⟨x, hx, hfx⟩
      · rw [List.mem_singleton.mp hx] at hfx
        exact hfatal hfx
  of_marking x hx hname := by
    rw [hfail]
    rcases List.mem_append.mp hx with hx | hx
    · exact h.of_marking x hx hname
    · rw [List.mem_singleton.mp hx] at hname
      exact (WorkflowPc.name_call hcall).mp hname
  marked hf _ :=
    ⟨_, List.mem_append_right _ (List.mem_singleton_self _),
      (WorkflowPc.name_call hcall).mpr (hfail ▸ hf)⟩
  after := h.after_append hcall

theorem Failing.step (h : Failing e) (hs : Step b e e') : Failing e' := by
  cases hs with
  | @succeeded call v pc hcall hv hresume =>
    refine h.append hcall (WorkflowPc.isFailing_resume hresume) ?_
    rintro ⟨-, -, f, hf, -⟩
    rw [hv] at hf
    cases hf
  | @retried call f hcall hf hlt hretry =>
    refine h.append hcall rfl ?_
    rintro ⟨-, -, f', hf', hlast⟩
    rw [hf] at hf'
    cases hf'
    refine absurd ⟨?_, hretry⟩ hlast
    exact (WorkflowPc.allows_call hcall _).trans (decide_eq_true hlt)
  | @gaveUp call f hcall hf =>
    rcases WorkflowPc.raise_cases hcall f with
      ⟨hfail, hraise⟩ | ⟨hfail, hname, hnext, -⟩ | ⟨-, hname, hmark, hraise⟩
    · refine h.append hcall ?_ fun _ => hfail
      rw [hfail]
      exact congrArg WorkflowPc.isFailing hraise
    · exact h.append hcall (hnext.trans hfail.symm) fun hfatal => absurd hname hfatal.1
    · refine ⟨iff_of_true (congrArg WorkflowPc.isFailing hraise) ?_,
        fun _ _ _ => congrArg WorkflowPc.isFailing hraise, fun _ hclosed => ?_,
        h.after_append hcall⟩
      · exact ⟨_, List.mem_append_right _ (List.mem_singleton_self _), hname, hmark, f, hf⟩
      · dsimp only at hclosed
        rw [hraise] at hclosed
        cases hclosed

theorem failing_of_reachable (h : (machine b r).Reachable e) : Failing e := by
  refine h.invariant (fun h0 => ?_) fun _ hI hs => hI.step (step_of_next hs)
  subst h0
  exact ⟨by simp [Run.start, WorkflowPc.isFailing], by simp,
    by simp [Run.start, WorkflowPc.isFailing], List.Pairwise.nil⟩

/-! ## The values a run goes on with -/

/-- An attempt of the activity returned `v`. -/
def Returned (log : List Entry) (name : ActivityName) (v : Value) : Prop :=
  ∃ x ∈ log, x.name = name ∧ x.outcome = .ok v

theorem Returned.append {log : List Entry} {name : ActivityName} {v : Value}
    (h : Returned log name v) (x : Entry) : Returned (log ++ [x]) name v := by
  obtain ⟨y, hy, hv⟩ := h
  exact ⟨y, List.mem_append_left _ hy, hv⟩

/-- The four results that are threaded through a run. -/
structure Results (log : List Entry) (c : ClassificationResult) (priorityLevel : String)
    (requiresReview : Bool) (queueName : String) : Prop where
  classify : Returned log .classifyReport (.classification c)
  score : Returned log .scorePriority (.text priorityLevel)
  decide : Returned log .decideReview (.flag requiresReview)
  persist : Returned log .persistClassification (.text queueName)

/-- The local variables of a run are what the activities before have returned. -/
def Carries (r : String) (log : List Entry) : WorkflowPc → Prop
  | .scorePriority _ c => Returned log .classifyReport (.classification c)
  | .decideReview c priorityLevel =>
    Returned log .classifyReport (.classification c) ∧
      Returned log .scorePriority (.text priorityLevel)
  | .persist c priorityLevel requiresReview =>
    Returned log .classifyReport (.classification c) ∧
      Returned log .scorePriority (.text priorityLevel) ∧
      Returned log .decideReview (.flag requiresReview)
  | .route c priorityLevel requiresReview queueName
  | .publish c priorityLevel requiresReview queueName
  | .markClassified c priorityLevel requiresReview queueName =>
    Results log c priorityLevel requiresReview queueName
  | .returned result => ∃ c priorityLevel requiresReview queueName,
    result = ⟨r, c.category, priorityLevel, requiresReview, queueName⟩ ∧
      Results log c priorityLevel requiresReview queueName
  | _ => True

theorem Results.append {log : List Entry} {c : ClassificationResult} {priorityLevel : String}
    {requiresReview : Bool} {queueName : String}
    (h : Results log c priorityLevel requiresReview queueName) (x : Entry) :
    Results (log ++ [x]) c priorityLevel requiresReview queueName :=
  ⟨h.classify.append x, h.score.append x, h.decide.append x, h.persist.append x⟩

theorem Carries.append {log : List Entry} {pc : WorkflowPc} (h : Carries r log pc) (x : Entry) :
    Carries r (log ++ [x]) pc := by
  cases pc with
  | scorePriority => exact Returned.append h x
  | decideReview => exact ⟨h.1.append x, h.2.append x⟩
  | persist => exact ⟨h.1.append x, h.2.1.append x, h.2.2.append x⟩
  | route | publish | markClassified => exact Results.append h x
  | returned result =>
    obtain ⟨c, priorityLevel, requiresReview, queueName, hresult, h⟩ := h
    exact ⟨c, priorityLevel, requiresReview, queueName, hresult, h.append x⟩
  | _ => trivial

theorem Carries.resume {log : List Entry} {pc pc' : WorkflowPc} {v : Value} {call : ActivityCall}
    (h : Carries r log pc) (hcall : pc.call r = some call) (hresume : pc.resume r v = some pc')
    (hv : Returned log call.activity.name v) : Carries r log pc' := by
  cases pc <;> cases v <;> cases hresume <;> cases hcall
  case load | markProcessing | route | publish | markFailed => trivial
  case classify => exact hv
  case scorePriority => exact ⟨h, hv⟩
  case decideReview => exact ⟨h.1, h.2, hv⟩
  case persist => exact ⟨h.1, h.2.1, h.2.2, hv⟩
  case markClassified => exact ⟨_, _, _, _, rfl, h⟩

/-- What a run knows of its own results. -/
structure Resulting (r : String) (e : Execution) : Prop where
  reportId : e.run.reportId = r
  carries : Carries r e.log e.run.pc
  /-- `mark_report_classified_activity` is the last one of a run that returns. -/
  returned_iff : (∃ result, e.run.pc = .returned result) ↔
    ∃ x ∈ e.log, x.name = .markReportClassified ∧ x.Succeeded

/-- An attempt after which the run has not returned, and which did not complete it. -/
theorem Resulting.append (h : Resulting r e) {call : ActivityCall} {run : Run}
    (hcall : e.run.pc.call e.run.reportId = some call) (hrun : run.reportId = e.run.reportId)
    (hcarries : Carries r (e.log ++ [e.entry b call]) run.pc)
    (hreturned : (∃ result, run.pc = .returned result) ↔
      call.activity.name = .markReportClassified ∧ (e.entry b call).Succeeded) :
    Resulting r ⟨run, e.log ++ [e.entry b call]⟩ := by
  refine ⟨hrun.trans h.reportId, hcarries, hreturned.trans ⟨fun hx => ?_, ?_⟩⟩
  · exact ⟨_, List.mem_append_right _ (List.mem_singleton_self _), hx⟩
  · rintro ⟨x, hx, hclassified⟩
    rcases List.mem_append.mp hx with hx | hx
    · obtain ⟨result, hpc⟩ := h.returned_iff.mpr ⟨x, hx, hclassified⟩
      rw [hpc] at hcall
      cases hcall
    · rw [List.mem_singleton.mp hx] at hclassified
      exact hclassified

theorem Resulting.step (h : Resulting r e) (hs : Step b e e') : Resulting r e' := by
  cases hs with
  | @succeeded call v pc hcall hv hresume =>
    have hreturned : Returned (e.log ++ [e.entry b call]) call.activity.name v :=
      ⟨_, List.mem_append_right _ (List.mem_singleton_self _), rfl, hv⟩
    refine h.append hcall rfl ?_ ?_
    · have hcarries := h.carries.append (e.entry b call)
      rw [h.reportId] at hcall hresume
      exact hcarries.resume hcall hresume hreturned
    · rw [and_iff_left (show (e.entry b call).Succeeded from ⟨v, hv⟩)]
      dsimp only
      generalize e.run.pc = pc₀ at hcall hresume
      cases pc₀ <;> cases v <;> cases hresume <;> cases hcall <;> simp [Activity.name]
  | @retried call f hcall hf hlt hretry =>
    refine h.append hcall rfl (h.carries.append _) ?_
    refine iff_of_false ?_ ?_
    · rintro ⟨result, hpc⟩
      dsimp only at hpc
      rw [hpc] at hcall
      cases hcall
    · rintro ⟨-, v, hv⟩
      rw [hf] at hv
      cases hv
  | @gaveUp call f hcall hf =>
    have hcarries := h.carries.append (e.entry b call)
    have hraise : Carries r (e.log ++ [e.entry b call]) (e.run.pc.raise f) ∧
        ¬ ∃ result, e.run.pc.raise f = .returned result := by
      generalize e.run.pc = pc₀ at hcall hcarries
      cases pc₀ <;> cases hcall <;> first
        | exact ⟨trivial, nofun⟩
        | exact ⟨hcarries, nofun⟩
    refine h.append hcall rfl hraise.1 (iff_of_false hraise.2 ?_)
    rintro ⟨-, v, hv⟩
    rw [hf.1] at hv
    cases hv

theorem resulting_of_reachable (h : (machine b r).Reachable e) : Resulting r e := by
  refine h.invariant (fun h0 => ?_) fun _ hI hs => hI.step (step_of_next hs)
  subst h0
  exact ⟨rfl, trivial, by simp [Run.start]⟩

/-! ## The end of a run -/

/-- The next attempt of an open run can be made, and is the next entry of the log. -/
theorem exists_next (b : Behaviour) (h : e.run.pc.isClosed = false) :
    ∃ e', e.next b = some e' ∧ e.log.length < e'.log.length := by
  obtain ⟨call, hcall⟩ := WorkflowPc.call_of_not_isClosed e.run.reportId h
  cases hout : (e.entry b call).outcome with
  | ok v =>
    obtain ⟨pc, hresume⟩ := WorkflowPc.exists_resume hcall (b.returns _ _ v hout)
    refine ⟨⟨⟨e.run.reportId, pc, 0, none, e.run.terminated⟩, e.log ++ [e.entry b call]⟩, ?_, ?_⟩
    · simp [next, hcall, hout, Run.succeeded, hresume]
    · simp
  | error f =>
    refine ⟨⟨Run.attemptFailed { e.run with attempts := (e.entry b call).number } f,
      e.log ++ [e.entry b call]⟩, ?_, ?_⟩
    · simp [next, hcall, hout]
    · simp

theorem next_of_isClosed (b : Behaviour) (h : e.run.pc.isClosed = true) : e.next b = none := by
  cases hcall : e.run.pc.call e.run.reportId with
  | none => simp [next, hcall]
  | some call =>
    rw [WorkflowPc.isClosed_of_call hcall] at h
    cases h

/-- **Every run ends.** -/
theorem exists_closed (h : (machine b r).Reachable e) :
    ∃ e', (machine b r).Path (fun _ _ => True) e e' ∧ e'.run.pc.isClosed = true := by
  refine Machine.Reachable.exists_done _ (fun e => e.log.length) 33 h (fun {t} ht => ?_)
    fun {t} ht => ?_
  · have hcounted := counted_of_reachable ht
    have hle := hcounted.length_le
    have hlt := hcounted.attempts_lt
    have hrank := WorkflowPc.rank_le t.run.pc
    omega
  · cases hclosed : t.run.pc.isClosed with
    | true => exact .inl rfl
    | false =>
      obtain ⟨u, hu, hlt⟩ := exists_next b hclosed
      exact .inr ⟨(), u, hu, hlt⟩

/-- A run has one end. -/
theorem closed_unique {t u : Execution} (ht : (machine b r).Path (fun _ _ => True) e t)
    (hu : (machine b r).Path (fun _ _ => True) e u) (hct : t.run.pc.isClosed = true)
    (hcu : u.run.pc.isClosed = true) : t = u := by
  rcases ht.linear hu with h | h
  · rcases h.eq_or_head with heq | ⟨_, v, hv, -⟩
    · exact heq
    · cases (next_of_isClosed b hct).symm.trans hv
  · rcases h.eq_or_head with heq | ⟨_, v, hv, -⟩
    · exact heq.symm
    · cases (next_of_isClosed b hcu).symm.trans hv

/-! ## What publishing leaves alone

Two behaviours that differ in the answers of `publish_triage_events_activity` only are run side
by side. They part while the one or the other is publishing, and meet again after it. -/

/-- The log without the attempts to publish. -/
def withoutPublish (log : List Entry) : List Entry :=
  log.filter fun x => x.name ≠ .publishTriageEvents

/-- Two executions that differ, if at all, in how they have been publishing. -/
structure Alike (e e' : Execution) : Prop where
  log : withoutPublish e'.log = withoutPublish e.log
  run : e'.run = { e.run with attempts := e'.run.attempts, outstanding := e'.run.outstanding }
  elsewhere : e.run.pc.rank ≠ 7 → e'.run = e.run

theorem withoutPublish_append {log : List Entry} {call : ActivityCall}
    (hname : call.activity.name = .publishTriageEvents) :
    withoutPublish (log ++ [e.entry b call]) = withoutPublish log := by
  simp [withoutPublish, hname]

/-- An answer the two behaviours share has the same effect in both. -/
theorem next_of_answer {call : ActivityCall} (hcall : e.run.pc.call e.run.reportId = some call)
    (hanswer : ∀ n, b'.answer call.activity n = b.answer call.activity n)
    (h : e.next b = some e') (log : List Entry) :
    e'.log = e.log ++ [e.entry b call] ∧
      Execution.next b' ⟨e.run, log⟩ = some ⟨e'.run, log ++ [e.entry b call]⟩ := by
  have hentry : Execution.entry ⟨e.run, log⟩ b' call = e.entry b call := by
    simp [entry, hanswer]
  cases hout : (e.entry b call).outcome with
  | ok v =>
    simp only [next, hcall, Option.bind_eq_bind, Option.bind_some, hout, hentry] at h ⊢
    obtain ⟨run, hrun, rfl⟩ := Option.map_eq_some_iff.mp h
    exact ⟨rfl, by simp [hrun]⟩
  | error f =>
    simp only [next, hcall, Option.bind_eq_bind, Option.bind_some, hout, hentry] at h ⊢
    cases h
    exact ⟨rfl, rfl⟩

/-- Publishing comes to an end, and the run goes on whatever it was. -/
theorem exists_published {c : ClassificationResult} {priorityLevel queueName : String}
    {requiresReview : Bool} (b : Behaviour) (r : String)
    (hpc : e.run.pc = .publish c priorityLevel requiresReview queueName) :
    ∃ log, (machine b r).Path (fun _ _ => True) e
        ⟨⟨e.run.reportId, .markClassified c priorityLevel requiresReview queueName, 0, none,
          e.run.terminated⟩, log⟩ ∧
      withoutPublish log = withoutPublish e.log := by
  induction hn : 3 - e.run.attempts using Nat.strongRecOn generalizing e with
  | ind n ih =>
    obtain ⟨u, hu, -⟩ := exists_next (e := e) b (by rw [hpc]; rfl)
    have hfirst : (machine b r).Path (fun _ _ => True) e u :=
      .single (a := ()) trivial hu
    have hskip : ∀ call, e.run.pc.call e.run.reportId = some call →
        withoutPublish (e.log ++ [e.entry b call]) = withoutPublish e.log := by
      intro call hcall
      rw [hpc] at hcall
      cases hcall
      exact withoutPublish_append rfl
    cases step_of_next hu with
    | @succeeded call v pc hcall hv hresume =>
      rw [hpc] at hresume
      cases v <;> cases hresume
      exact ⟨_, hfirst, hskip call hcall⟩
    | @gaveUp call f hcall hf =>
      rw [hpc] at hfirst
      exact ⟨_, hfirst, hskip call hcall⟩
    | @retried call f hcall hf hlt hretry =>
      obtain ⟨log, hp, hlog⟩ := ih _ (by dsimp only; omega)
        (e := ⟨{ e.run with attempts := e.run.attempts + 1, outstanding := none },
          e.log ++ [e.entry b call]⟩) hpc rfl
      exact ⟨log, hfirst.trans hp, hlog.trans (hskip call hcall)⟩

theorem exists_alike {u : Execution} (h : Alike e e')
    (hagree : ∀ activity, activity.name ≠ .publishTriageEvents →
      ∀ n, b'.answer activity n = b.answer activity n)
    (hu : e.next b = some u) :
    ∃ u', (machine b' r).Path (fun _ _ => True) e' u' ∧ Alike u u' := by
  by_cases hpublish : e.run.pc.rank = 7
  · obtain ⟨c, priorityLevel, requiresReview, queueName, hpc⟩ :
        ∃ c priorityLevel requiresReview queueName,
          e.run.pc = .publish c priorityLevel requiresReview queueName := by
      cases hp : e.run.pc <;> rw [hp] at hpublish <;>
        first | exact ⟨_, _, _, _, rfl⟩ | cases hpublish
    have hpc' : e'.run.pc = .publish c priorityLevel requiresReview queueName := by
      rw [h.run]
      exact hpc
    -- Once the one has published, the other is let go on until it has too.
    have hmeet : ∀ {call : ActivityCall} {run : Run},
        e.run.pc.call e.run.reportId = some call →
        run = ⟨e.run.reportId, .markClassified c priorityLevel requiresReview queueName, 0, none,
          e.run.terminated⟩ →
        ∃ u', (machine b' r).Path (fun _ _ => True) e' u' ∧
          Alike ⟨run, e.log ++ [e.entry b call]⟩ u' := by
      rintro call run hcall rfl
      rw [hpc] at hcall
      cases hcall
      obtain ⟨log, hp, hlog⟩ := exists_published b' r hpc'
      rw [h.run] at hp
      exact ⟨_, hp, hlog.trans (h.log.trans (withoutPublish_append rfl).symm), rfl, fun _ => rfl⟩
    cases step_of_next hu with
    | @succeeded call v pc hcall hv hresume =>
      rw [hpc] at hresume
      cases v <;> cases hresume
      exact hmeet hcall rfl
    | @gaveUp call f hcall hf => exact hmeet hcall (by rw [hpc]; rfl)
    | @retried call f hcall hf hlt hretry =>
      have hname : call.activity.name = .publishTriageEvents := by
        rw [hpc] at hcall
        cases hcall
        rfl
      exact ⟨e', .refl, h.log.trans (withoutPublish_append hname).symm, h.run,
        fun hne => absurd hpublish hne⟩
  · obtain ⟨call, hcall, -⟩ := Option.bind_eq_some_iff.mp hu
    have hname : call.activity.name ≠ .publishTriageEvents := fun hname => by
      refine hpublish ((WorkflowPc.idxOf_call hcall).symm.trans ?_)
      rw [hname]
      rfl
    obtain ⟨hlog, hnext⟩ := next_of_answer hcall (hagree call.activity hname) hu e'.log
    rw [← h.elsewhere hpublish] at hnext
    refine ⟨_, .single (a := ()) trivial hnext, ?_, rfl, fun _ => rfl⟩
    simp only [withoutPublish, List.filter_append, hlog]
    exact congrArg (· ++ _) h.log

theorem alike_of_path {u : Execution}
    (hagree : ∀ activity, activity.name ≠ .publishTriageEvents →
      ∀ n, b'.answer activity n = b.answer activity n)
    (hu : (machine b r).Path (fun _ _ => True) e u) :
    ∃ u', (machine b' r).Path (fun _ _ => True) e u' ∧ Alike u u' := by
  induction hu with
  | refl => exact ⟨e, .refl, rfl, rfl, fun _ => rfl⟩
  | tail _ _ hs ih =>
    obtain ⟨t', ht', halike⟩ := ih
    obtain ⟨u', hu', halike'⟩ := exists_alike halike hagree hs
    exact ⟨u', ht'.trans hu', halike'⟩

end Execution

/-! ## The law -/

open Execution in
/-- What holds of an execution of the run of report `r`. -/
structure ControlLaw (b : Behaviour) (r : String) (e : Execution) : Prop where
  /-- The activities are first started in the order of a triage, and at most
  `mark_report_failed_activity` after those. -/
  order : ∃ k, started e.log = triageOrder.take k ∨
    started e.log = triageOrder.take k ++ [.markReportFailed]
  attempts : ∀ name, (e.log.countP fun x => x.name = name) ≤ 3
  /-- No activity is attempted before the one before it has succeeded or, if that is the
  publishing, is over. -/
  behind : ∀ pre x, pre ++ [x] <+: e.log → ∀ p, Precedes p x.name →
    ∃ y ∈ pre, y.name = p ∧ (y.Succeeded ∨ p = .publishTriageEvents ∧ y.GaveUp)
  /-- `mark_report_failed_activity` is started only if an activity other than the publishing
  has failed for good -/
  failed_of_marking : (∃ x ∈ e.log, x.name = .markReportFailed) →
    ∃ x ∈ e.log, x.name ≠ .publishTriageEvents ∧ x.name ≠ .markReportFailed ∧ x.GaveUp
  /-- — and always then; -/
  marking_of_failed : e.run.pc.isClosed = true →
    (∃ x ∈ e.log, x.name ≠ .publishTriageEvents ∧ x.GaveUp) →
      ∃ x ∈ e.log, x.name = .markReportFailed
  /-- nothing else is started after that. -/
  after_failed : e.log.Pairwise fun x y =>
    x.name ≠ .publishTriageEvents → x.name ≠ .markReportFailed → x.GaveUp →
      y.name = .markReportFailed
  returns_iff : (∃ result, e.run.pc = .returned result) ↔
    ∃ x ∈ e.log, x.name = .markReportClassified ∧ x.Succeeded
  result : ∀ result, e.run.pc = .returned result →
    ∃ c priorityLevel requiresReview queueName,
      result = ⟨r, c.category, priorityLevel, requiresReview, queueName⟩ ∧
        Results e.log c priorityLevel requiresReview queueName
  ends : ∃ e', (machine b r).Path (fun _ _ => True) e e' ∧ e'.run.pc.isClosed = true
  /-- Had the publishing been answered otherwise, the other attempts and the end of the run
  would be the same. -/
  publish : ∀ (b' : Behaviour) (e' : Execution),
    (∀ activity, activity.name ≠ .publishTriageEvents →
      ∀ n, b'.answer activity n = b.answer activity n) →
    (machine b' r).Reachable e' → e.run.pc.isClosed = true → e'.run.pc.isClosed = true →
      e'.run.pc = e.run.pc ∧
        (e'.log.filter fun x => x.name ≠ .publishTriageEvents) =
          e.log.filter fun x => x.name ≠ .publishTriageEvents

namespace Execution

variable {b : Behaviour} {r : String} {e : Execution}

/-- **The control law of a run**, at every point of every run, whatever the activities do. -/
theorem control_law (h : (machine b r).Reachable e) : ControlLaw b r e where
  order := by
    have hordered := ordered_of_reachable h
    simp only [Ordered] at hordered
    split at hordered
    · obtain ⟨k, hk⟩ := hordered
      refine ⟨k, ?_⟩
      split at hk
      · exact .inl (hk.trans (List.append_nil _))
      · exact .inr hk
    · exact ⟨_, .inl hordered⟩
  attempts := (counted_of_reachable h).le_three
  behind := (sequenced_of_reachable h).log
  failed_of_marking := fun ⟨x, hx, hname⟩ =>
    (failing_of_reachable h).isFailing_iff.mp ((failing_of_reachable h).of_marking x hx hname)
  marking_of_failed := fun hclosed ⟨x, hx, hpublish, hgave⟩ => by
    by_cases hname : x.name = .markReportFailed
    · exact ⟨x, hx, hname⟩
    · have hfailing := failing_of_reachable h
      exact hfailing.marked (hfailing.isFailing_iff.mpr ⟨x, hx, hpublish, hname, hgave⟩) hclosed
  after_failed := (failing_of_reachable h).after.imp fun hxy hpublish hmark hgave =>
    hxy ⟨hpublish, hmark, hgave⟩
  returns_iff := (resulting_of_reachable h).returned_iff
  result := fun result hpc => by
    have hcarries := (resulting_of_reachable h).carries
    rw [hpc] at hcarries
    exact hcarries
  ends := exists_closed h
  publish := fun b' e' hagree h' hclosed hclosed' => by
    obtain ⟨e₀, rfl, hp⟩ := h
    obtain ⟨e₁, rfl, hp'⟩ := h'
    obtain ⟨u, hu, halike⟩ := alike_of_path hagree hp
    have hpc : u.run.pc = e.run.pc := by rw [halike.run]
    cases closed_unique hu hp' (by rw [hpc, hclosed]) hclosed'
    exact ⟨hpc, halike.log⟩

/-- No message can be published; every other activity returns at once. -/
def brokerDown : Behaviour where
  answer
    | .loadReport r, _ => .ok (.report ⟨r, "spam", "", []⟩)
    | .classifyReport _, _ => .ok (.classification ⟨"spam", 3 / 4, ""⟩)
    | .scorePriority _ _, _ => .ok (.text "medium")
    | .decideReview _ _ _, _ => .ok (.flag false)
    | .persistClassification _ _ _ _ _ _, _ => .ok (.text "spam-review")
    | .publishTriageEvents _ _ _ _ _ _, _ => .error .timeout
    | _, _ => .ok .null
  returns activity n v h := by
    cases activity <;> cases h <;> trivial

/-- The run makes eleven attempts, three of them to publish, and returns. -/
theorem control_law_brokerDown : ∃ e,
    e.run.pc = .returned ⟨"r", "spam", "medium", false, "spam-review"⟩ ∧
    e.log.length = 11 ∧ ControlLaw brokerDown "r" e := by
  have hrun : ((machine brokerDown "r").run ⟨Run.start "r", []⟩ (List.replicate 11 ())).any
      (fun e => e.run.pc.result? = some ⟨"r", "spam", "medium", false, "spam-review"⟩ ∧
        e.log.length = 11) = true := by decide
  obtain ⟨e, he, hp⟩ := (Option.any_eq_true _ _).mp hrun
  have hreach : (machine brokerDown "r").Reachable e := ⟨_, rfl, .of_runIf he⟩
  have hpc := of_decide_eq_true hp
  exact ⟨e, WorkflowPc.eq_returned_of_result hpc.1, hpc.2, control_law hreach⟩

end Execution

end ReportTriage

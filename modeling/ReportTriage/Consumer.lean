import Mathlib.Data.List.Find
import Mathlib.Data.List.Nodup
import ReportTriage.Lib.Machine
import ReportTriage.Lib.Slots
import ReportTriage.Schema

/-!
# The consumer

A separate process counts the messages of the stream in `event_metrics`. Each delivery is
handled by an execution of `_handler`, which is suspended at the statement of its transaction,
at its commit and at its acknowledgement, and may fail or be stopped at each. The commit and the
acknowledgement are effects on two systems: either may happen without the handler learning of
it, and an acknowledgement may reach the server long after it was sent.

## Main definitions

* `Consumer.machine` — any number of handlers, over any messages.
* `Consumer.Effect`, `Consumer.effect_of_step` — everything one step can do.
* `Consumer.Accounted`, `Consumer.accounted_of_path` — the invariant of the counters.
* `Consumer.accounting` — what the counters say.
-/

namespace ReportTriage

/-- What `json.loads` makes of a payload. -/
inductive JsonOutcome
  | value
  /-- A `ValueError`, as both `JSONDecodeError` and `UnicodeDecodeError` are. -/
  | valueError
  /-- Any other exception: `RecursionError`, on a payload nested too deep. -/
  | otherError
  deriving DecidableEq

/-- The JSON parser of the Python interpreter. -/
class JsonParser where
  loads : List UInt8 → JsonOutcome

/-- A row of `event_metrics`. -/
structure EventMetric where
  subject : String
  count : ℕ
  lastSeenAt : Time
  deriving DecidableEq, Repr

/-- A message as the handler receives it. -/
structure RawMessage where
  subject : String
  data : List UInt8
  deriving DecidableEq, Repr

/-- The durable consumers, one for each of the two subscriptions. -/
inductive Durable
  | triaged
  | routed
  deriving DecidableEq, Repr

def knownSubjects : List String := [subjectReportTriaged, subjectQueueRouted]

/-- `decode_subject`. The `except` clause catches a `ValueError` only. -/
def decodeSubject [JsonParser] (m : RawMessage) : Except Unit (Option String) :=
  if m.subject ∉ knownSubjects then .ok none
  else match JsonParser.loads m.data with
    | .value => .ok (some m.subject)
    | .valueError => .ok none
    | .otherError => .error ()

/-- The subject is known and the payload is JSON. -/
def RawMessage.Countable [JsonParser] (m : RawMessage) : Prop :=
  m.subject ∈ knownSubjects ∧ JsonParser.loads m.data = .value

/-! ## The counters -/

/-- `INSERT … ON CONFLICT (subject) DO UPDATE` of `record_event`: the row it leaves. -/
def recordEvent (metrics : List EventMetric) (subject : String) (now : Time) : EventMetric :=
  match metrics.find? fun row => row.subject = subject with
  | none => ⟨subject, 1, now⟩
  | some row => { row with count := row.count + 1, lastSeenAt := now }

/-- The table once the row is committed. -/
def storeMetric (metrics : List EventMetric) (row : EventMetric) : List EventMetric :=
  if ∃ r ∈ metrics, r.subject = row.subject then
    metrics.map fun r => if r.subject = row.subject then row else r
  else metrics ++ [row]

/-- The count of a subject. -/
def countOf (metrics : List EventMetric) (subject : String) : ℕ :=
  ((metrics.find? fun row => row.subject = subject).map EventMetric.count).getD 0

variable {metrics : List EventMetric} {row : EventMetric} {subject : String} {now : Time}

@[simp] theorem subject_recordEvent : (recordEvent metrics subject now).subject = subject := by
  simp only [recordEvent]
  split
  · rfl
  · rename_i h
    simpa using List.find?_some h

theorem count_recordEvent :
    (recordEvent metrics subject now).count = countOf metrics subject + 1 := by
  simp only [recordEvent, countOf]
  split <;> rename_i h <;> simp [h]

theorem find?_storeMetric : (storeMetric metrics row).find? (fun r => r.subject = subject) =
    if row.subject = subject then some row else metrics.find? fun r => r.subject = subject := by
  simp only [storeMetric]
  split
  · rename_i hex
    -- Replacing a row by one of its own subject does not change which row is found.
    have hfind : (metrics.map fun r => if r.subject = row.subject then row else r).find?
        (fun r => r.subject = subject) =
          (metrics.find? fun r => r.subject = subject).map fun r =>
            if r.subject = row.subject then row else r := by
      rw [List.find?_map]
      congr 1
      refine List.find?_congr fun r _ => ?_
      simp only [Function.comp_apply]
      split
      · rename_i hr
        rw [hr]
      · rfl
    rw [hfind]
    cases hf : metrics.find? fun r => r.subject = subject with
    | none =>
      obtain ⟨r, hr, hrow⟩ := hex
      have hne : r.subject ≠ subject := by simpa using List.find?_eq_none.mp hf r hr
      rw [if_neg fun h => hne (hrow.trans h)]
      rfl
    | some r =>
      have hr : r.subject = subject := by simpa using List.find?_some hf
      rw [Option.map_some, hr]
      by_cases hs : row.subject = subject
      · rw [if_pos hs.symm, if_pos hs]
      · rw [if_neg (Ne.symm hs), if_neg hs]
  · rename_i hnone
    rw [List.find?_append]
    by_cases hs : row.subject = subject
    · have hfind : (metrics.find? fun r => r.subject = subject) = none :=
        List.find?_eq_none.mpr fun r hr => by simpa [← hs] using fun h => hnone ⟨r, hr, h⟩
      simp [hfind, hs]
    · simp [hs]

theorem countOf_storeMetric : countOf (storeMetric metrics row) subject =
    if row.subject = subject then row.count else countOf metrics subject := by
  simp only [countOf]
  rw [find?_storeMetric]
  split <;> rfl

theorem filter_storeMetric (h : row.subject = subject) :
    (storeMetric metrics row).filter (fun r => r.subject ≠ subject) =
      metrics.filter fun r => r.subject ≠ subject := by
  simp only [storeMetric]
  split
  · refine Slots.filter_map_eq fun r _ => ?_
    split <;> simp_all
  · simp [List.filter_append, h]

/-! ## The handlers -/

/-- The await a handler is suspended at. -/
inductive HandlerPhase
  | received
  /-- At the upsert of `record_event`. -/
  | recording (subject : String)
  /-- The upsert has executed and is not committed. -/
  | recorded (row : EventMetric)
  /-- At `msg.ack()`, after the transaction or without one. -/
  | acking (committed : Bool)
  | ended (committed : Bool)
  deriving DecidableEq

/-- An execution of `_handler`, for a delivery of message number `seq`. -/
structure Handling where
  durable : Durable
  seq : ℕ
  message : RawMessage
  phase : HandlerPhase

/-- Its transaction has committed. -/
def Handling.committed (h : Handling) : Bool :=
  match h.phase with
  | .acking committed | .ended committed => committed
  | _ => false

/-- It holds the row of the subject, uncommitted. -/
def Handling.Holds (subject : String) (h : Handling) : Prop :=
  match h.phase with
  | .recorded row => row.subject = subject
  | _ => False

instance (subject : String) (h : Handling) : Decidable (h.Holds subject) := by
  unfold Handling.Holds
  split <;> infer_instance

/-- The counters, the stream and every handler ever called. An acknowledgement is in flight from
the time it is sent until the server has received it. -/
structure Consumer where
  metrics : List EventMetric
  messages : List RawMessage
  handlings : List Handling
  acksSent : List (Durable × ℕ)
  acked : List (Durable × ℕ)

namespace Consumer

inductive Action
  | publish (m : RawMessage)
  | deliver (durable : Durable) (seq : ℕ)
  | decode (i : ℕ)
  | execute (i : ℕ) (now : Time)
  /-- `raises`: the commit takes effect and raises. -/
  | commit (i : ℕ) (raises : Bool)
  | ack (i : ℕ) (sent : Bool)
  /-- The awaited call raises without taking effect, or the consumer stops. -/
  | fail (i : ℕ)
  | receiveAck (durable : Durable) (seq : ℕ)

def setPhase (u : Consumer) (i : ℕ) (p : HandlerPhase) : Consumer :=
  { u with handlings := u.handlings.modify i fun h => { h with phase := p } }

/-- The server delivers, again and again, what is not acknowledged. -/
def deliver (u : Consumer) (durable : Durable) (seq : ℕ) : Option Consumer :=
  if (durable, seq) ∈ u.acked then none
  else u.messages[seq]?.map fun m =>
    { u with handlings := u.handlings ++ [⟨durable, seq, m, .received⟩] }

/-- What `decode_subject` decides. -/
def decode [JsonParser] (u : Consumer) (i : ℕ) : Option Consumer := do
  let h ← u.handlings[i]?
  match h.phase with
  | .received => some (u.setPhase i (match decodeSubject h.message with
    | .ok none => .acking false
    | .ok (some subject) => .recording subject
    | .error () => .ended false))
  | _ => none

/-- `record_event`: it waits for a row of the subject that is not committed. -/
def execute (u : Consumer) (i : ℕ) (now : Time) : Option Consumer := do
  let h ← u.handlings[i]?
  match h.phase with
  | .recording subject =>
    if ∃ k ∈ u.handlings, k.Holds subject then none
    else some (u.setPhase i (.recorded (recordEvent u.metrics subject now)))
  | _ => none

/-- The commit of `session_scope`. A handler that sees it raise does not acknowledge. -/
def commit (u : Consumer) (i : ℕ) (raises : Bool) : Option Consumer := do
  let h ← u.handlings[i]?
  match h.phase with
  | .recorded row => some { u.setPhase i (if raises then .ended true else .acking true) with
      metrics := storeMetric u.metrics row }
  | _ => none

/-- `msg.ack()`, which may raise before it is sent. -/
def ack (u : Consumer) (i : ℕ) (sent : Bool) : Option Consumer := do
  let h ← u.handlings[i]?
  match h.phase with
  | .acking committed => some { u.setPhase i (.ended committed) with
      acksSent := if sent then u.acksSent ++ [(h.durable, h.seq)] else u.acksSent }
  | _ => none

/-- The handler goes no further; an open transaction is rolled back. -/
def fail (u : Consumer) (i : ℕ) : Option Consumer := do
  let h ← u.handlings[i]?
  match h.phase with
  | .ended _ => none
  | _ => some (u.setPhase i (.ended h.committed))

def receiveAck (u : Consumer) (durable : Durable) (seq : ℕ) : Option Consumer :=
  if (durable, seq) ∈ u.acksSent then some { u with acked := u.acked ++ [(durable, seq)] }
  else none

def step [JsonParser] (u : Consumer) : Action → Option Consumer
  | .publish m => some { u with messages := u.messages ++ [m] }
  | .deliver durable seq => u.deliver durable seq
  | .decode i => u.decode i
  | .execute i now => u.execute i now
  | .commit i raises => u.commit i raises
  | .ack i sent => u.ack i sent
  | .fail i => u.fail i
  | .receiveAck durable seq => u.receiveAck durable seq

/-- Any counters, one row a subject, and any stream of which nothing was delivered yet. -/
def machine [JsonParser] : Machine Consumer Action where
  init u := (u.metrics.map EventMetric.subject).Nodup ∧ u.handlings = [] ∧ u.acksSent = [] ∧
    u.acked = []
  step := step

variable [JsonParser] {d u v : Consumer} {a : Action} {i : ℕ} {h : Handling}

/-- **Everything a step can do.** -/
inductive Effect (u : Consumer) : Action → Consumer → Prop
  | published {m : RawMessage} :
      Effect u (.publish m) { u with messages := u.messages ++ [m] }
  | delivered {durable : Durable} {seq : ℕ} {m : RawMessage} (hm : u.messages[seq]? = some m) :
      Effect u (.deliver durable seq)
        { u with handlings := u.handlings ++ [⟨durable, seq, m, .received⟩] }
  | ignored {i : ℕ} {h : Handling} (hx : u.handlings[i]? = some h) (hp : h.phase = .received)
      (hdecode : decodeSubject h.message = .ok none) :
      Effect u (.decode i) (u.setPhase i (.acking false))
  | decoded {i : ℕ} {h : Handling} {subject : String} (hx : u.handlings[i]? = some h)
      (hp : h.phase = .received) (hdecode : decodeSubject h.message = .ok (some subject)) :
      Effect u (.decode i) (u.setPhase i (.recording subject))
  | undecodable {i : ℕ} {h : Handling} (hx : u.handlings[i]? = some h) (hp : h.phase = .received) :
      Effect u (.decode i) (u.setPhase i (.ended false))
  | executed {i : ℕ} {now : Time} {h : Handling} {subject : String}
      (hx : u.handlings[i]? = some h) (hp : h.phase = .recording subject)
      (hfree : ∀ k ∈ u.handlings, ¬ k.Holds subject) :
      Effect u (.execute i now) (u.setPhase i (.recorded (recordEvent u.metrics subject now)))
  | committed {i : ℕ} {raises : Bool} {h : Handling} {row : EventMetric}
      (hx : u.handlings[i]? = some h) (hp : h.phase = .recorded row) :
      Effect u (.commit i raises)
        { u.setPhase i (if raises then .ended true else .acking true) with
          metrics := storeMetric u.metrics row }
  | acknowledged {i : ℕ} {sent : Bool} {h : Handling} {committed : Bool}
      (hx : u.handlings[i]? = some h) (hp : h.phase = .acking committed) :
      Effect u (.ack i sent) { u.setPhase i (.ended committed) with
        acksSent := if sent then u.acksSent ++ [(h.durable, h.seq)] else u.acksSent }
  | failed {i : ℕ} {h : Handling} (hx : u.handlings[i]? = some h)
      (hopen : ∀ committed, h.phase ≠ .ended committed) :
      Effect u (.fail i) (u.setPhase i (.ended h.committed))
  | ackReceived {durable : Durable} {seq : ℕ} (hsent : (durable, seq) ∈ u.acksSent) :
      Effect u (.receiveAck durable seq) { u with acked := u.acked ++ [(durable, seq)] }

theorem effect_of_step (hs : u.step a = some v) : Effect u a v := by
  cases a with
  | publish m =>
    cases hs
    exact .published
  | deliver durable seq =>
    simp only [Consumer.step, Consumer.deliver] at hs
    split at hs
    · cases hs
    · obtain ⟨m, hm, rfl⟩ := Option.map_eq_some_iff.mp hs
      exact .delivered hm
  | decode i =>
    obtain ⟨h, hx, hs⟩ := Option.bind_eq_some_iff.mp hs
    split at hs
    · rename_i hp
      cases hs
      split
      · exact .ignored hx hp ‹_›
      · exact .decoded hx hp ‹_›
      · exact .undecodable hx hp
    · cases hs
  | execute i now =>
    obtain ⟨h, hx, hs⟩ := Option.bind_eq_some_iff.mp hs
    split at hs
    · rename_i subject hp
      split at hs
      · cases hs
      · rename_i hfree
        push Not at hfree
        cases hs
        exact .executed hx hp hfree
    · cases hs
  | commit i raises =>
    obtain ⟨h, hx, hs⟩ := Option.bind_eq_some_iff.mp hs
    split at hs <;> cases hs
    exact .committed hx ‹_›
  | ack i sent =>
    obtain ⟨h, hx, hs⟩ := Option.bind_eq_some_iff.mp hs
    split at hs <;> cases hs
    exact .acknowledged hx ‹_›
  | fail i =>
    obtain ⟨h, hx, hs⟩ := Option.bind_eq_some_iff.mp hs
    split at hs
    · cases hs
    · rename_i hopen
      cases hs
      exact .failed hx hopen
  | receiveAck durable seq =>
    simp only [Consumer.step, Consumer.receiveAck] at hs
    split at hs
    · rename_i hsent
      cases hs
      exact .ackReceived hsent
    · cases hs

/-! ## The invariant -/

/-- What a handler has seen fits what it does, and a row it holds is the next count. -/
def Fits (metrics : List EventMetric) (h : Handling) : Prop :=
  match h.phase with
  | .received => True
  | .recording subject => subject = h.message.subject ∧ h.message.Countable
  | .recorded row => row.subject = h.message.subject ∧ h.message.Countable ∧
      row.count = countOf metrics row.subject + 1
  | .acking committed => committed = true ↔ h.message.Countable
  | .ended committed => committed = true → h.message.Countable

/-- How many executions for messages of the subject have committed. -/
def committedFor (u : Consumer) (subject : String) : ℕ :=
  u.handlings.countP fun h => h.committed ∧ h.message.subject = subject

/-- The message of an acknowledgement has been counted, if it is to be. -/
def Covered (u : Consumer) (seq : ℕ) : Prop :=
  ∃ m, u.messages[seq]? = some m ∧
    (m.Countable → ∃ h ∈ u.handlings, h.seq = seq ∧ h.committed = true)

structure Accounted (d u : Consumer) : Prop where
  keys : (u.metrics.map EventMetric.subject).Nodup
  message : ∀ h ∈ u.handlings, u.messages[h.seq]? = some h.message
  fits : ∀ h ∈ u.handlings, Fits u.metrics h
  apart : ∀ (i j : ℕ) (h k : Handling) (row row' : EventMetric), i ≠ j →
    u.handlings[i]? = some h → u.handlings[j]? = some k → h.phase = .recorded row →
    k.phase = .recorded row' → row.subject ≠ row'.subject
  count : ∀ subject, countOf u.metrics subject = countOf d.metrics subject + u.committedFor subject
  acks : ∀ p, p ∈ u.acksSent ∨ p ∈ u.acked → u.Covered p.2

theorem accounted_of_init (h : machine.init d) : Accounted d d := by
  obtain ⟨hkeys, hhandlings, hsent, hacked⟩ := h
  refine ⟨hkeys, ?_, ?_, ?_, ?_, ?_⟩ <;> simp [committedFor, hhandlings, hsent, hacked]

omit [JsonParser] in
theorem setPhase_cases {j : ℕ} {k : Handling} {p : HandlerPhase} (hx : u.handlings[i]? = some h)
    (hk : (u.setPhase i p).handlings[j]? = some k) :
    (j = i ∧ k = { h with phase := p }) ∨ (j ≠ i ∧ u.handlings[j]? = some k) := by
  rcases Slots.modify_cases hk with ⟨rfl, y, hy, rfl⟩ | hne
  · rw [hx] at hy
    cases hy
    exact .inl ⟨rfl, rfl⟩
  · exact .inr hne

omit [JsonParser] in
theorem mem_setPhase_cases {k : Handling} {p : HandlerPhase} (hx : u.handlings[i]? = some h)
    (hk : k ∈ (u.setPhase i p).handlings) : k = { h with phase := p } ∨ k ∈ u.handlings := by
  obtain ⟨j, hj⟩ := List.getElem?_of_mem hk
  rcases setPhase_cases hx hj with ⟨-, rfl⟩ | ⟨-, hj⟩
  · exact .inl rfl
  · exact .inr (List.mem_of_getElem? hj)

omit [JsonParser] in
theorem committedFor_setPhase {p : HandlerPhase} (subject : String)
    (hx : u.handlings[i]? = some h) :
    (u.setPhase i p).committedFor subject +
        (if h.committed = true ∧ h.message.subject = subject then 1 else 0) =
      u.committedFor subject +
        if ({ h with phase := p } : Handling).committed = true ∧ h.message.subject = subject
        then 1 else 0 := by
  have hcount := Slots.countP_modify (f := fun h : Handling => { h with phase := p })
    (p := fun h : Handling => h.committed ∧ h.message.subject = subject) hx
  simpa [committedFor, setPhase] using hcount

/-- What was covered stays so when a handler that has committed goes on. -/
theorem Covered.setPhase {seq : ℕ} {p : HandlerPhase} (hcov : u.Covered seq)
    (hx : u.handlings[i]? = some h)
    (hcommitted : h.committed = true → ({ h with phase := p } : Handling).committed = true) :
    (u.setPhase i p).Covered seq := by
  obtain ⟨m, hm, hcounted⟩ := hcov
  refine ⟨m, hm, ?_⟩
  intro hc
  obtain ⟨k, hk, hseq, hkc⟩ := hcounted hc
  obtain ⟨j, hj⟩ := List.getElem?_of_mem hk
  by_cases hji : j = i
  · subst hji
    rw [hx] at hj
    cases hj
    exact ⟨_, List.mem_of_getElem? (Slots.modify_self hx), hseq, hcommitted hkc⟩
  · exact ⟨k, List.mem_of_getElem? ((Slots.modify_of_ne hji).trans hj), hseq, hkc⟩

/-- A handler goes on without a commit. -/
theorem Accounted.setPhase (hI : Accounted d u) {p : HandlerPhase}
    (hx : u.handlings[i]? = some h) (hfits : Fits u.metrics { h with phase := p })
    (hcommitted : ({ h with phase := p } : Handling).committed = h.committed)
    (hholds : ∀ row, p = .recorded row → ∀ k ∈ u.handlings, ¬ k.Holds row.subject) :
    Accounted d (u.setPhase i p) where
  keys := hI.keys
  message k hk := by
    rcases mem_setPhase_cases hx hk with rfl | hk
    · exact hI.message h (List.mem_of_getElem? hx)
    · exact hI.message k hk
  fits k hk := by
    rcases mem_setPhase_cases hx hk with rfl | hk
    · exact hfits
    · exact hI.fits k hk
  apart j j' k k' row row' hne hj hj' hrow hrow' := by
    have hfree : ∀ k ∈ u.handlings, ∀ row row', p = .recorded row → k.phase = .recorded row' →
        row'.subject ≠ row.subject := by
      intro k hk row row' hp hphase heq
      exact hholds row hp k hk (by simpa [Handling.Holds, hphase] using heq)
    rcases setPhase_cases hx hj with ⟨rfl, rfl⟩ | ⟨-, hold⟩
    · rcases setPhase_cases hx hj' with ⟨rfl, -⟩ | ⟨-, hold'⟩
      · exact absurd rfl hne
      · exact (hfree k' (List.mem_of_getElem? hold') row row' hrow hrow').symm
    · rcases setPhase_cases hx hj' with ⟨rfl, rfl⟩ | ⟨-, hold'⟩
      · exact hfree k (List.mem_of_getElem? hold) row' row hrow' hrow
      · exact hI.apart j j' k k' row row' hne hold hold' hrow hrow'
  count subject := by
    have hcount := committedFor_setPhase (p := p) subject hx
    rw [hcommitted, Nat.add_right_cancel_iff] at hcount
    rw [hcount]
    exact hI.count subject
  acks q hq := (hI.acks q hq).setPhase hx fun hc => hcommitted.trans hc

omit [JsonParser] in
theorem keys_storeMetric {metrics : List EventMetric} {row : EventMetric}
    (h : (metrics.map EventMetric.subject).Nodup) :
    ((storeMetric metrics row).map EventMetric.subject).Nodup := by
  simp only [storeMetric]
  split
  · rw [List.map_map]
    refine (List.map_congr_left fun r _ => ?_) ▸ h
    simp only [Function.comp_apply]
    split
    · rename_i hr
      exact hr
    · rfl
  · rename_i hnone
    rw [List.map_append, List.map_singleton, List.nodup_append]
    refine ⟨h, by simp, fun p hp q hq hpq => hnone ?_⟩
    obtain ⟨r, hr, rfl⟩ := List.mem_map.mp hp
    exact ⟨r, hr, hpq.trans (List.mem_singleton.mp hq)⟩

/-- **The commit counts once**: the row a handler holds is the next count of its subject, and no
other handler holds it. -/
theorem Accounted.commit (hI : Accounted d u) {row : EventMetric} {p : HandlerPhase}
    (hx : u.handlings[i]? = some h) (hp : h.phase = .recorded row)
    (hnext : p = .ended true ∨ p = .acking true) :
    Accounted d { u.setPhase i p with metrics := storeMetric u.metrics row } := by
  have hfits := hI.fits h (List.mem_of_getElem? hx)
  simp only [Fits, hp] at hfits
  obtain ⟨hsubject, hcountable, hrow⟩ := hfits
  have hcommitted : ({ h with phase := p } : Handling).committed = true := by
    rcases hnext with rfl | rfl <;> rfl
  have hbefore : h.committed = false := by simp [Handling.committed, hp]
  refine ⟨keys_storeMetric hI.keys, ?_, ?_, ?_, ?_, ?_⟩
  · intro k hk
    rcases mem_setPhase_cases hx hk with rfl | hk
    · exact hI.message h (List.mem_of_getElem? hx)
    · exact hI.message k hk
  · intro k hk
    obtain ⟨j, hj⟩ := List.getElem?_of_mem hk
    rcases setPhase_cases hx hj with ⟨-, rfl⟩ | ⟨hne, hj⟩
    · rcases hnext with rfl | rfl
      · exact fun _ => hcountable
      · exact iff_of_true rfl hcountable
    · have hk := hI.fits k (List.mem_of_getElem? hj)
      simp only [Fits] at hk ⊢
      split at hk
      · trivial
      · exact hk
      · rename_i row' hp'
        refine ⟨hk.1, hk.2.1, ?_⟩
        rw [countOf_storeMetric, if_neg (hI.apart i j h k row row' (Ne.symm hne) hx hj hp hp')]
        exact hk.2.2
      · exact hk
      · exact hk
  · intro j j' k k' r r' hne hj hj' hr hr'
    rcases setPhase_cases hx hj with ⟨-, rfl⟩ | ⟨-, hold⟩
    · rcases hnext with rfl | rfl <;> cases hr
    · rcases setPhase_cases hx hj' with ⟨-, rfl⟩ | ⟨-, hold'⟩
      · rcases hnext with rfl | rfl <;> cases hr'
      · exact hI.apart j j' k k' r r' hne hold hold' hr hr'
  · intro subject
    have hcount := committedFor_setPhase (p := p) subject hx
    simp only [hbefore, hcommitted, Bool.false_eq_true, false_and, if_false, true_and,
      Nat.add_zero] at hcount
    change countOf (storeMetric u.metrics row) subject =
      countOf d.metrics subject + (u.setPhase i p).committedFor subject
    rw [countOf_storeMetric, hcount, ← Nat.add_assoc, ← hI.count subject, ← hsubject]
    by_cases hs : row.subject = subject
    · rw [if_pos hs, if_pos hs, hrow, hs]
    · rw [if_neg hs, if_neg hs, Nat.add_zero]
  · intro q hq
    exact (hI.acks q hq).setPhase hx fun _ => hcommitted

theorem countable_of_decode {m : RawMessage} {subject : String}
    (h : decodeSubject m = .ok (some subject)) : subject = m.subject ∧ m.Countable := by
  simp only [decodeSubject] at h
  split at h
  · cases h
  · rename_i hknown
    rw [not_not] at hknown
    split at h <;> cases h
    rename_i hloads
    exact ⟨rfl, hknown, hloads⟩

theorem not_countable_of_decode {m : RawMessage} (h : decodeSubject m = .ok none) :
    ¬ m.Countable := by
  rintro ⟨hknown, hloads⟩
  simp [decodeSubject, hknown, hloads] at h

theorem Accounted.deliver (hI : Accounted d u) {durable : Durable} {seq : ℕ} {m : RawMessage}
    (hm : u.messages[seq]? = some m) :
    Accounted d { u with handlings := u.handlings ++ [⟨durable, seq, m, .received⟩] } := by
  refine ⟨hI.keys, ?_, ?_, ?_, ?_, ?_⟩
  · intro k hk
    rcases List.mem_append.mp hk with hk | hk
    · exact hI.message k hk
    · rw [List.mem_singleton.mp hk]
      exact hm
  · intro k hk
    rcases List.mem_append.mp hk with hk | hk
    · exact hI.fits k hk
    · rw [List.mem_singleton.mp hk]
      trivial
  · intro j j' k k' r r' hne hj hj' hr hr'
    rcases Slots.append_cases hj with hj | ⟨-, rfl⟩
    · rcases Slots.append_cases hj' with hj' | ⟨-, rfl⟩
      · exact hI.apart j j' k k' r r' hne hj hj' hr hr'
      · cases hr'
    · cases hr
  · intro subject
    have hcount := hI.count subject
    simpa [committedFor, Handling.committed] using hcount
  · intro q hq
    obtain ⟨m', hm', hcounted⟩ := hI.acks q hq
    refine ⟨m', hm', ?_⟩
    intro hc
    obtain ⟨k, hk, hcommitted⟩ := hcounted hc
    exact ⟨k, List.mem_append_left _ hk, hcommitted⟩

/-- What a handler acknowledges it has counted, or was not to. -/
theorem Accounted.ack (hI : Accounted d u) (sent : Bool) {committed : Bool}
    (hx : u.handlings[i]? = some h) (hp : h.phase = .acking committed) :
    Accounted d { u.setPhase i (.ended committed) with
      acksSent := if sent then u.acksSent ++ [(h.durable, h.seq)] else u.acksSent } := by
  have hmem := List.mem_of_getElem? hx
  have hfits := hI.fits h hmem
  simp only [Fits, hp] at hfits
  have hcommitted : ({ h with phase := .ended committed } : Handling).committed = h.committed := by
    simp [Handling.committed, hp]
  have hset := hI.setPhase hx (p := .ended committed) (fun hc => hfits.mp hc) hcommitted nofun
  refine ⟨hset.keys, hset.message, hset.fits, hset.apart, hset.count, ?_⟩
  intro q hq
  have hown : (u.setPhase i (.ended committed)).Covered h.seq :=
    ⟨h.message, hI.message h hmem, fun hc =>
      ⟨_, List.mem_of_getElem? (Slots.modify_self hx), rfl, hfits.mpr hc⟩⟩
  rcases hq with hq | hq
  · split at hq
    · rcases List.mem_append.mp hq with hq | hq
      · exact hset.acks q (.inl hq)
      · rw [List.mem_singleton.mp hq]
        exact hown
    · exact hset.acks q (.inl hq)
  · exact hset.acks q (.inr hq)

theorem Accounted.step (hI : Accounted d u) (he : Effect u a v) : Accounted d v := by
  cases he with
  | published =>
    refine ⟨hI.keys, ?_, hI.fits, hI.apart, hI.count, ?_⟩
    · intro k hk
      exact Slots.append_of_some (hI.message k hk)
    · intro q hq
      obtain ⟨m', hm', hcounted⟩ := hI.acks q hq
      exact ⟨m', Slots.append_of_some hm', hcounted⟩
  | delivered hm => exact hI.deliver hm
  | ignored hx hp hdecode =>
    exact hI.setPhase hx (iff_of_false Bool.false_ne_true (not_countable_of_decode hdecode))
      (by simp [Handling.committed, hp]) nofun
  | decoded hx hp hdecode =>
    exact hI.setPhase hx (countable_of_decode hdecode) (by simp [Handling.committed, hp]) nofun
  | undecodable hx hp =>
    exact hI.setPhase hx (fun hc => absurd hc Bool.false_ne_true)
      (by simp [Handling.committed, hp]) nofun
  | @executed i now h subject hx hp hfree =>
    have hfits := hI.fits h (List.mem_of_getElem? hx)
    simp only [Fits, hp] at hfits
    refine hI.setPhase hx ?_ (by simp [Handling.committed, hp]) fun row hrow k hk => ?_
    · simp only [Fits, subject_recordEvent, count_recordEvent]
      exact ⟨hfits.1, hfits.2, trivial⟩
    · cases hrow
      rw [subject_recordEvent]
      exact hfree k hk
  | @committed i raises h row hx hp => exact hI.commit hx hp (by cases raises <;> simp)
  | acknowledged hx hp => exact hI.ack _ hx hp
  | @failed i h hx hopen =>
    refine hI.setPhase hx (fun hc => ?_) rfl nofun
    have hfits := hI.fits h (List.mem_of_getElem? hx)
    simp only [Handling.committed] at hc
    split at hc
    · rename_i committed hp
      simp only [Fits, hp] at hfits
      exact hfits.mp hc
    · rename_i committed hp
      exact absurd hp (hopen committed)
    · cases hc
  | ackReceived hsent =>
    refine ⟨hI.keys, hI.message, hI.fits, hI.apart, hI.count, ?_⟩
    intro q hq
    rcases hq with hq | hq
    · exact hI.acks q (.inl hq)
    · rcases List.mem_append.mp hq with hq | hq
      · exact hI.acks q (.inr hq)
      · rw [List.mem_singleton.mp hq]
        exact hI.acks _ (.inl hsent)

theorem accounted_of_path (hd : machine.init d) (hu : machine.Path (fun _ _ => True) d u) :
    Accounted d u :=
  hu.invariant (accounted_of_init hd) fun _ hI _ hs => hI.step (effect_of_step hs)

/-! ## What the counters say -/

/-- The counters change only with the commit of a handler, by one for the subject of its message,
and not for any other. -/
theorem Accounted.metrics_step (hI : Accounted d u) (he : Effect u a v) :
    v.metrics = u.metrics ∨
      ∃ i raises h, a = .commit i raises ∧ u.handlings[i]? = some h ∧ h.message.Countable ∧
        countOf v.metrics h.message.subject = countOf u.metrics h.message.subject + 1 ∧
        (v.metrics.filter fun r => r.subject ≠ h.message.subject) =
          u.metrics.filter fun r => r.subject ≠ h.message.subject := by
  cases he with
  | @committed i raises h row hx hp =>
    have hfits := hI.fits h (List.mem_of_getElem? hx)
    simp only [Fits, hp] at hfits
    obtain ⟨hsubject, hcountable, hrow⟩ := hfits
    refine .inr ⟨i, raises, h, rfl, hx, hcountable, ?_, filter_storeMetric hsubject⟩
    change countOf (storeMetric u.metrics row) _ = _
    rw [countOf_storeMetric, if_pos hsubject, hrow, hsubject]
  | _ => exact .inl rfl

/-- **Consumer accounting.** From any counters and any stream, in every interleaving of any
number of handlers, with failures and stops at each await, commits that raise and
acknowledgements that are lost or late: the count of a subject is what it was plus the number of
executions for its messages that have committed; a step changes the counters only if it commits
an execution for a message of a known subject with a JSON payload, adds one to the count of that
subject, and leaves the rows of the others as they are; no other execution ever commits; and a
message that is acknowledged has been counted, if it is to be. -/
theorem accounting (hd : machine.init d) (hu : machine.Path (fun _ _ => True) d u) :
    (∀ subject, countOf u.metrics subject = countOf d.metrics subject +
      u.handlings.countP fun h => h.committed ∧ h.message.subject = subject) ∧
    (∀ a v, u.step a = some v → v.metrics = u.metrics ∨
      ∃ i raises h, a = .commit i raises ∧ u.handlings[i]? = some h ∧ h.message.Countable ∧
        countOf v.metrics h.message.subject = countOf u.metrics h.message.subject + 1 ∧
        (v.metrics.filter fun r => r.subject ≠ h.message.subject) =
          u.metrics.filter fun r => r.subject ≠ h.message.subject) ∧
    (∀ h ∈ u.handlings, ¬ h.message.Countable → h.committed = false) ∧
    (∀ p ∈ u.acked, ∃ m, u.messages[p.2]? = some m ∧ (m.Countable →
      ∃ h ∈ u.handlings, h.seq = p.2 ∧ h.message = m ∧ h.committed = true)) := by
  have hI := accounted_of_path hd hu
  refine ⟨hI.count, fun a v hs => hI.metrics_step (effect_of_step hs), ?_, ?_⟩
  · intro h hh hnot
    have hfits := hI.fits h hh
    simp only [Handling.committed]
    split <;> rename_i hphase <;> simp only [Fits, hphase] at hfits
    · exact Bool.eq_false_of_not_eq_true fun hc => hnot (hfits.mp hc)
    · exact Bool.eq_false_of_not_eq_true fun hc => hnot (hfits hc)
    · rfl
  · intro p hp
    obtain ⟨m, hm, hcounted⟩ := hI.acks p (.inr hp)
    refine ⟨m, hm, ?_⟩
    intro hc
    obtain ⟨h, hh, hseq, hcommitted⟩ := hcounted hc
    have hmessage := hI.message h hh
    rw [hseq, hm] at hmessage
    exact ⟨h, hh, hseq, (Option.some.inj hmessage).symm, hcommitted⟩

/-- A message is counted, but the commit raises; it is delivered again, counted again and
acknowledged. -/
def redelivery : List Action :=
  [.publish ⟨subjectReportTriaged, []⟩, .deliver .triaged 0, .decode 0, .execute 0 1,
    .commit 0 true, .deliver .triaged 0, .decode 1, .execute 1 2, .commit 1 false, .ack 1 true,
    .receiveAck .triaged 0]

omit [JsonParser] in
theorem accounting_redelivery : ∃ (_ : JsonParser) (u : Consumer),
    machine.Path (fun _ _ => True) ⟨[], [], [], [], []⟩ u ∧
      u.acked = [(.triaged, 0)] ∧ countOf u.metrics subjectReportTriaged = 2 := by
  let _ : JsonParser := ⟨fun _ => .value⟩
  have hrun : ((machine.run ⟨[], [], [], [], []⟩ redelivery).any fun u =>
      u.acked = [(.triaged, 0)] ∧ u.committedFor subjectReportTriaged = 2) = true := by
    decide +kernel
  obtain ⟨u, hu, hp⟩ := (Option.any_eq_true _ _).mp hrun
  obtain ⟨hacked, hcommitted⟩ := of_decide_eq_true hp
  have hpath := Machine.Path.of_runIf hu
  have hinit : machine.init ⟨[], [], [], [], []⟩ := ⟨List.nodup_nil, rfl, rfl, rfl⟩
  have hcount := (accounting hinit hpath).1 subjectReportTriaged
  exact ⟨_, u, hpath, hacked, hcount.trans (by rw [← committedFor, hcommitted]; rfl)⟩

end Consumer

end ReportTriage

import ReportTriage.Causality
import ReportTriage.Decoding

/-!
# From the workers to the counters

The workers publish into the stream, and the consumer counts what is delivered to it. The two are
one machine here: what the consumer may be delivered is what the workers have stored, as the bytes
they have sent, and each durable consumer gets the messages of its own subject.

## Main definitions

* `Message.raw` — a stored message, as it is delivered.
* `Pipeline.machine` — the system and the consumer of its stream.
* `Pipeline.Linked` — what holds in every state of a run.
* `Pipeline.published_is_counted` — every message that is published is one to be counted.
-/

namespace ReportTriage

/-- The subject that a durable consumer is subscribed to. -/
def Durable.subject : Durable → String
  | .triaged => subjectReportTriaged
  | .routed => subjectQueueRouted

def Message.raw [EventWriter] (m : Message) : RawMessage := ⟨m.subject, m.payload.data⟩

theorem Consumer.accounted_of_empty [JsonParser] {u : Consumer}
    (hu : machine.Path (fun _ _ => True) ⟨[], [], [], [], []⟩ u) :
    Accounted ⟨[], [], [], [], []⟩ u :=
  accounted_of_path ⟨List.nodup_nil, rfl, rfl, rfl⟩ hu

structure Pipeline where
  system : System
  consumer : Consumer

namespace Pipeline

inductive Action
  | system (a : ReportTriage.Action)
  | consumer (a : Consumer.Action)

/-- The server delivers to a durable consumer what it is subscribed to, and no one but the workers
publishes. -/
def offered (u : Consumer) : Consumer.Action → Bool
  | .publish _ => false
  | .deliver durable seq => (u.messages[seq]?).any fun m => m.subject = durable.subject
  | _ => true

variable [UnicodeData] [EventWriter] [Interpreter]

def step (p : Pipeline) : Action → Option Pipeline
  | .system a => (p.system.step a).map fun s =>
      { system := s
        consumer := { p.consumer with messages := s.stream.map Message.raw } }
  | .consumer a =>
    if offered p.consumer a then (p.consumer.step a).map fun u => { p with consumer := u }
    else none

/-- From empty stores and an empty stream. -/
def machine : Machine Pipeline Action where
  init p := p = ⟨.empty, ⟨[], [], [], [], []⟩⟩
  step := step

/-! ## The two parts -/

variable {p q : Pipeline} {a : Action} {ok : Pipeline → Action → Prop}

/-- What holds in every state of a run. An acknowledgement is of a delivery that was counted. -/
structure Linked (p : Pipeline) : Prop where
  system : System.machine.Reachable p.system
  consumer : Consumer.machine.Path (fun _ _ => True) ⟨[], [], [], [], []⟩ p.consumer
  messages : p.consumer.messages = p.system.stream.map Message.raw
  subject : ∀ k ∈ p.consumer.handlings, k.message.subject = k.durable.subject
  acks : ∀ r, r ∈ p.consumer.acksSent ∨ r ∈ p.consumer.acked →
    ∃ k ∈ p.consumer.handlings, (k.durable, k.seq) = r ∧ k.committed = true

omit [UnicodeData] [EventWriter] in
theorem path_publish (u : Consumer) (l : List RawMessage) : Consumer.machine.Path
    (fun _ _ => True) u { u with messages := u.messages ++ l } := by
  induction l generalizing u with
  | nil =>
    rw [List.append_nil]
    exact .refl
  | cons m l ih =>
    have hstep : u.step (.publish m) = some { u with messages := u.messages ++ [m] } := rfl
    have hrest := ih { u with messages := u.messages ++ [m] }
    rw [List.append_assoc, List.singleton_append] at hrest
    exact (Consumer.path_of_step hstep).trans hrest

/-- A stored message says what its subject says, and its payload is a document. -/
theorem countable_of_mem {s : System} (h : System.machine.Reachable s) {m : Message}
    (hm : m ∈ s.stream) : m.raw.Countable := by
  obtain ⟨-, -, -, hpayload⟩ := (System.causal_of_reachable h).messages m hm
  refine ⟨?_, ?_⟩
  · cases hp : m.payload with
    | triaged e =>
      rw [hp] at hpayload
      rw [Message.raw, hpayload.1]
      simp [knownSubjects]
    | queueRouted e =>
      rw [hp] at hpayload
      rw [Message.raw, hpayload.1]
      simp [knownSubjects]
  · exact m.payload.loads_eq_value

theorem Linked.accounted (h : Linked p) :
    Consumer.Accounted ⟨[], [], [], [], []⟩ p.consumer :=
  Consumer.accounted_of_empty h.consumer

theorem Linked.countable (h : Linked p) {k : Handling} (hk : k ∈ p.consumer.handlings) :
    k.message.Countable := by
  have hmem := List.mem_of_getElem? (h.accounted.message k hk)
  rw [h.messages] at hmem
  obtain ⟨m, hm, hraw⟩ := List.mem_map.mp hmem
  rw [← hraw]
  exact countable_of_mem h.system hm

theorem linked_of_init (h : machine.init p) : Linked p := by
  subst h
  exact ⟨.init rfl, .refl, rfl, by simp, by simp⟩

/-- What the workers do appends to the stream. -/
theorem Linked.system_step (h : Linked p) {b : ReportTriage.Action} {s : System}
    (hs : p.system.step b = some s) :
    Linked ⟨s, { p.consumer with messages := s.stream.map Message.raw }⟩ where
  system := h.system.step hs
  consumer := by
    obtain ⟨l, hl⟩ := (System.effect_of_step hs).stream_mono
    have hpublish := path_publish p.consumer (l.map Message.raw)
    rw [h.messages, ← List.map_append, hl] at hpublish
    exact h.consumer.trans hpublish
  messages := rfl
  subject := h.subject
  acks := h.acks

omit [UnicodeData] [EventWriter] [Interpreter] in
/-- A handler that has committed stays so. -/
theorem mem_setPhase_of_committed {u : Consumer} {i : ℕ} {x k : Handling} {phase : HandlerPhase}
    (hx : u.handlings[i]? = some x)
    (hcommitted : x.committed = true → ({ x with phase := phase } : Handling).committed = true)
    (hk : k ∈ u.handlings) (hc : k.committed = true) :
    ∃ k' ∈ (u.setPhase i phase).handlings, (k'.durable, k'.seq) = (k.durable, k.seq) ∧
      k'.committed = true := by
  obtain ⟨j, hj⟩ := List.getElem?_of_mem hk
  by_cases hji : j = i
  · subst hji
    rw [hx] at hj
    cases hj
    exact ⟨_, List.mem_of_getElem? (Slots.modify_self hx), rfl, hcommitted hc⟩
  · exact ⟨k, List.mem_of_getElem? ((Slots.modify_of_ne hji).trans hj), rfl, hc⟩

theorem Linked.consumer_step (h : Linked p) {b : Consumer.Action} {u : Consumer}
    (hoffered : offered p.consumer b = true) (hs : p.consumer.step b = some u) :
    Linked ⟨p.system, u⟩ := by
  have hacc := h.accounted
  have hpath := h.consumer.trans (Consumer.path_of_step hs)
  -- A handler that moves keeps its message, its durable and its number.
  have hmoved : ∀ {i : ℕ} {x : Handling} {phase : HandlerPhase} {v : Consumer},
      p.consumer.handlings[i]? = some x →
      (x.committed = true → ({ x with phase := phase } : Handling).committed = true) →
      v.handlings = (p.consumer.setPhase i phase).handlings → v.messages = p.consumer.messages →
      (∀ r, r ∈ v.acksSent ∨ r ∈ v.acked → (r ∈ p.consumer.acksSent ∨ r ∈ p.consumer.acked) ∨
        r = (x.durable, x.seq) ∧ ({ x with phase := phase } : Handling).committed = true) →
      Consumer.machine.Path (fun _ _ => True) ⟨[], [], [], [], []⟩ v →
      Linked ⟨p.system, v⟩ := by
    intro i x phase v hx hcommitted hhandlings hmessages hacks hv
    refine ⟨h.system, hv, hmessages.trans h.messages, fun k hk => ?_, fun r hr => ?_⟩
    · rw [hhandlings] at hk
      rcases Consumer.mem_setPhase_cases hx hk with rfl | hk
      · exact h.subject x (List.mem_of_getElem? hx)
      · exact h.subject k hk
    · change ∃ k ∈ v.handlings, _
      rw [hhandlings]
      rcases hacks r hr with hr | ⟨rfl, hc⟩
      · obtain ⟨k, hk, rfl, hc⟩ := h.acks r hr
        exact mem_setPhase_of_committed hx hcommitted hk hc
      · exact ⟨_, List.mem_of_getElem? (Slots.modify_self hx), rfl, hc⟩
  have hopen : ∀ {x : Handling} {phase : HandlerPhase},
      (x.phase = .received ∨ (∃ subject, x.phase = .recording subject) ∨
        ∃ row, x.phase = .recorded row) →
      x.committed = true → ({ x with phase := phase } : Handling).committed = true := by
    rintro x phase (hp | ⟨subject, hp⟩ | ⟨row, hp⟩) hc <;> simp [Handling.committed, hp] at hc
  cases Consumer.effect_of_step hs with
  | published => cases hoffered
  | @delivered durable seq m hm =>
    refine ⟨h.system, hpath, h.messages, fun k hk => ?_, fun r hr => ?_⟩
    · rcases List.mem_append.mp hk with hk | hk
      · exact h.subject k hk
      · rw [List.mem_singleton.mp hk]
        simpa [offered, hm] using hoffered
    · obtain ⟨k, hk, hkr⟩ := h.acks r hr
      exact ⟨k, List.mem_append_left _ hk, hkr⟩
  | ignored hx hp => exact hmoved hx (hopen (.inl hp)) rfl rfl (fun r hr => .inl hr) hpath
  | decoded hx hp => exact hmoved hx (hopen (.inl hp)) rfl rfl (fun r hr => .inl hr) hpath
  | undecodable hx hp => exact hmoved hx (hopen (.inl hp)) rfl rfl (fun r hr => .inl hr) hpath
  | executed hx hp =>
    exact hmoved hx (hopen (.inr (.inl ⟨_, hp⟩))) rfl rfl (fun r hr => .inl hr) hpath
  | committed hx hp =>
    exact hmoved hx (hopen (.inr (.inr ⟨_, hp⟩))) rfl rfl (fun r hr => .inl hr) hpath
  | @acknowledged i sent x committed hx hp =>
    have hmem := List.mem_of_getElem? hx
    have hfits := hacc.fits x hmem
    simp only [Consumer.Fits, hp] at hfits
    obtain rfl := hfits.mpr (h.countable hmem)
    refine hmoved hx (fun _ => rfl) rfl rfl (fun r hr => ?_) hpath
    rcases hr with hr | hr
    · split at hr
      · rcases List.mem_append.mp hr with hr | hr
        · exact .inl (.inl hr)
        · exact .inr ⟨List.mem_singleton.mp hr, rfl⟩
      · exact .inl (.inl hr)
    · exact .inl (.inr hr)
  | failed hx hp =>
    refine hmoved hx ?_ rfl rfl (fun r hr => .inl hr) hpath
    exact fun hc => hc
  | @ackReceived durable seq hsent =>
    refine ⟨h.system, hpath, h.messages, h.subject, fun r hr => ?_⟩
    rcases hr with hr | hr
    · exact h.acks r (.inl hr)
    · rcases List.mem_append.mp hr with hr | hr
      · exact h.acks r (.inr hr)
      · rw [List.mem_singleton.mp hr]
        exact h.acks _ (.inl hsent)

theorem linked_of_reachable (h : machine.Reachable p) : Linked p := by
  refine h.invariant (I := Linked) linked_of_init fun {t a u} _ ht hs => ?_
  cases a with
  | system b =>
    obtain ⟨s, hs', rfl⟩ := Option.map_eq_some_iff.mp hs
    exact ht.system_step hs'
  | consumer b =>
    change (if offered t.consumer b then _ else none) = _ at hs
    split at hs
    · obtain ⟨u', hu, rfl⟩ := Option.map_eq_some_iff.mp hs
      exact ht.consumer_step ‹_› hu
    · cases hs

/-! ## What is counted -/

/-- The numbers of the messages on a subject that its durable consumer has acknowledged. -/
def acknowledged (p : Pipeline) (durable : Durable) : List ℕ :=
  (List.range p.system.stream.length).filter fun seq => p.consumer.acked.contains (durable, seq)

omit [UnicodeData] [EventWriter] [Interpreter] in
theorem subject_injective : Function.Injective Durable.subject := by
  intro d d' h
  cases d <;> cases d' <;> first | rfl | exact absurd h (by decide)

theorem Linked.handled (h : Linked p) {k : Handling} (hk : k ∈ p.consumer.handlings) :
    ∃ m, p.system.stream[k.seq]? = some m ∧ k.message = m.raw ∧ m.subject = k.durable.subject := by
  have hmessage := h.accounted.message k hk
  rw [h.messages, List.getElem?_map] at hmessage
  obtain ⟨m, hm, hraw⟩ := Option.map_eq_some_iff.mp hmessage
  have hsubject := h.subject k hk
  rw [← hraw] at hsubject
  exact ⟨m, hm, hraw.symm, hsubject⟩

/-- The counter of a subject is the number of the handlers of its durable that have committed. -/
theorem Linked.count (h : Linked p) (durable : Durable) :
    countOf p.consumer.metrics durable.subject =
      p.consumer.handlings.countP fun k => k.committed ∧ k.durable = durable := by
  have hcount := h.accounted.count durable.subject
  rw [hcount, Consumer.committedFor]
  simp only [countOf, List.find?_nil, Option.map_none, Option.getD_none, Nat.zero_add]
  refine List.countP_congr fun k hk => ?_
  simp only [decide_eq_true_eq, h.subject k hk, subject_injective.eq_iff]

theorem Linked.acknowledged_le (h : Linked p) (durable : Durable) :
    (p.acknowledged durable).length ≤ countOf p.consumer.metrics durable.subject := by
  rw [h.count, List.countP_eq_length_filter, ← List.length_map (f := Handling.seq)]
  refine (List.subperm_of_subset (List.nodup_range.filter _) fun seq hseq => ?_).length_le
  obtain ⟨-, hacked⟩ := List.mem_filter.mp hseq
  obtain ⟨k, hk, hkr, hc⟩ := h.acks (durable, seq) (.inr (by simpa using hacked))
  cases hkr
  exact List.mem_map.mpr ⟨k, List.mem_filter.mpr ⟨hk, by simp [hc]⟩, rfl⟩

omit [EventWriter] [Interpreter] in
/-- The report of a stored message is stored. -/
theorem stored_of_mem {s : System} (h : System.machine.Reachable s) {m : Message}
    (hm : m ∈ s.stream) : (s.getReport m.payload.reportId).isSome := by
  obtain ⟨-, -, -, hpayload⟩ := (System.causal_of_reachable h).messages m hm
  cases hp : m.payload with
  | triaged e =>
    rw [hp] at hpayload
    obtain ⟨-, _, _, _, ⟨row, hrow, -⟩, -⟩ := hpayload
    exact Option.isSome_of_mem hrow
  | queueRouted e =>
    rw [hp] at hpayload
    obtain ⟨-, -, _, ⟨_, ⟨row, hrow, -⟩, -⟩, -⟩ := hpayload
    exact Option.isSome_of_mem hrow

/-- **What is published is counted.** In every reachable state of the workers and the consumer:
the consumer may be delivered the messages of the stream, as they were sent, and nothing else;
`decode_subject` takes every one of them, so none is ignored and none ends its handler; each
delivery is to the durable consumer of the subject and is about a stored report that has its
classification and its queue item; the counter of a subject is the number of the handlers of its
durable consumer that have committed, and is at least the number of the messages that it has
acknowledged. -/
theorem published_is_counted (h : machine.Reachable p) :
    p.consumer.messages = p.system.stream.map Message.raw ∧
    (∀ m ∈ p.system.stream, decodeSubject m.raw = .ok (some m.subject)) ∧
    (∀ k ∈ p.consumer.handlings, ∃ m, p.system.stream[k.seq]? = some m ∧ k.message = m.raw ∧
      m.subject = k.durable.subject ∧ (p.system.getReport m.payload.reportId).isSome ∧
      (p.system.upserts.classificationOf m.payload.reportId).isSome ∧
      p.system.upserts.Routed m.payload.reportId) ∧
    ∀ durable : Durable, countOf p.consumer.metrics durable.subject =
        p.consumer.handlings.countP (fun k => k.committed ∧ k.durable = durable) ∧
      (p.acknowledged durable).length ≤ countOf p.consumer.metrics durable.subject := by
  have hl := linked_of_reachable h
  refine ⟨hl.messages, fun m hm => ?_, fun k hk => ?_,
    fun durable => ⟨hl.count durable, hl.acknowledged_le durable⟩⟩
  · exact Consumer.decodeSubject_eq_some_iff.mpr (countable_of_mem hl.system hm)
  · obtain ⟨m, hm, hraw, hsubject⟩ := hl.handled hk
    have hmem := List.mem_of_getElem? hm
    obtain ⟨-, hclassified, hrouted, -⟩ := (System.causal_of_reachable hl.system).messages m hmem
    exact ⟨m, hm, hraw, hsubject, stored_of_mem hl.system hmem, hclassified.classificationOf,
      hrouted⟩

/-- A writer that knows one float and one time. -/
@[reducible] def plainWriter : EventWriter where
  number _ := pyText "0.7"
  timestamp _ := "2025-01-01T00:00:00Z"
  number_isFloat _ := ⟨[], pyText "0", pyText ".7", [], .inl rfl, .inl rfl,
    .inr ⟨pyText "7", ⟨by decide, by decide⟩, rfl⟩, .inl rfl, by decide, rfl⟩

/-- The usual recursion limit. -/
@[reducible] def cPython : Interpreter where
  read _ := "0.7"
  nesting := 1000
  nesting_pos := by decide

/-- One report is triaged, and both of its events are delivered, counted and acknowledged. -/
def cleanPipeline : List Action :=
  (Sample.create 0 "r" ++ Sample.cleanRun 0 0).map .system ++
    ([.deliver .triaged 0, .deliver .routed 1, .decode 0, .decode 1, .execute 0 1, .execute 1 1,
      .commit 0 false, .commit 1 false, .ack 0 true, .ack 1 true, .receiveAck .triaged 0,
      .receiveAck .routed 1] : List Consumer.Action).map .consumer

omit [UnicodeData] [EventWriter] [Interpreter] in
theorem published_is_counted_cleanPipeline :
    ∃ (_ : UnicodeData) (_ : EventWriter) (_ : Interpreter) (p : Pipeline), machine.Reachable p ∧
      p.acknowledged .triaged = [0] ∧ countOf p.consumer.metrics subjectReportTriaged =
        p.consumer.handlings.countP (fun k => k.committed ∧ k.durable = .triaged) := by
  let _ := asciiUnicode
  let _ := plainWriter
  let _ := cPython
  have hrun : ((machine.run ⟨.empty, ⟨[], [], [], [], []⟩⟩ cleanPipeline).any fun p =>
      p.acknowledged .triaged = [0]) = true := by
    decide +kernel
  obtain ⟨p, hp, hacked⟩ := Machine.Along.exists_of_runIf rfl hrun
  exact ⟨_, _, _, p, hp, by simpa using hacked, ((published_is_counted hp).2.2.2 .triaged).1⟩

end Pipeline

end ReportTriage

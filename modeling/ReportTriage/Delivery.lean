import ReportTriage.Lib.Counting
import ReportTriage.Pipeline
import ReportTriage.Publication

/-!
# Delivered, counted and shown

The server delivers a message until it is acknowledged. So whatever has happened, the consumer can
still come to the end of the stream; and if nothing is delivered again that has been counted or may
still be, the counters are exact.

## Main definitions

* `Pipeline.Drained`, `Pipeline.exists_drained` — every message can come to be acknowledged.
* `Pipeline.Prompt`, `Pipeline.counts_once` — when each message is counted once.
* `listEventMetrics`, `Pipeline.metrics_shown` — `GET /metrics/events`, and what it shows.
-/

namespace ReportTriage

/-! ## One delivery -/

def Handling.isEnded (k : Handling) : Bool :=
  match k.phase with
  | .ended _ => true
  | _ => false

namespace Consumer

/-- The consumer, with one more handler. -/
def withLast (u : Consumer) (k : Handling) : Consumer := { u with handlings := u.handlings ++ [k] }

/-- No handler is under way. -/
def Stopped (u : Consumer) : Prop := ∀ k ∈ u.handlings, k.isEnded = true

variable {u : Consumer} {k : Handling} {m : RawMessage} {durable : Durable} {seq i : ℕ}

theorem not_holds_of_isEnded (h : k.isEnded = true) (subject : String) : ¬ k.Holds subject := by
  simp only [Handling.isEnded] at h
  simp only [Handling.Holds]
  split <;> simp_all

theorem setPhase_withLast (u : Consumer) (k : Handling) (phase : HandlerPhase) :
    (u.withLast k).setPhase u.handlings.length phase = u.withLast { k with phase := phase } := by
  simp only [setPhase, withLast, Slots.modify_concat]

theorem getElem?_withLast (u : Consumer) (k : Handling) :
    (u.withLast k).handlings[u.handlings.length]? = some k := List.getElem?_concat_length

variable [JsonParser]

theorem offered_path {v : Consumer} {a : Action} (hoffered : Pipeline.offered u a = true)
    (hs : u.step a = some v) : machine.Path (fun u a => Pipeline.offered u a = true) u v :=
  .single hoffered hs

theorem decode_withLast (hp : k.phase = .received) :
    (u.withLast k).step (.decode u.handlings.length) =
      some (u.withLast { k with phase := afterDecode k.message }) := by
  rw [decode_of_received (getElem?_withLast u k) hp, setPhase_withLast]

theorem execute_withLast {subject : String} (now : Time) (hp : k.phase = .recording subject)
    (hfree : ∀ k ∈ u.handlings, ¬ k.Holds subject) :
    (u.withLast k).step (.execute u.handlings.length now) =
      some (u.withLast { k with phase := .recorded (recordEvent u.metrics subject now) }) := by
  have hwait : ¬ ∃ k' ∈ (u.withLast k).handlings, k'.Holds subject := by
    rintro ⟨k', hk', hholds⟩
    rcases List.mem_append.mp hk' with hk' | hk'
    · exact hfree k' hk' hholds
    · rw [List.mem_singleton.mp hk', Handling.Holds, hp] at hholds
      exact hholds
  simp only [Consumer.step, Consumer.execute, getElem?_withLast, Option.bind_eq_bind,
    Option.bind_some, hp, if_neg hwait, setPhase_withLast]
  rfl

theorem commit_withLast {row : EventMetric} (hp : k.phase = .recorded row) :
    (u.withLast k).step (.commit u.handlings.length false) =
      some (withLast { u with metrics := storeMetric u.metrics row }
        { k with phase := .acking true }) := by
  simp only [Consumer.step, Consumer.commit, getElem?_withLast, Option.bind_eq_bind,
    Option.bind_some, hp, setPhase_withLast]
  rfl

theorem ack_withLast {committed : Bool} (hp : k.phase = .acking committed) :
    (u.withLast k).step (.ack u.handlings.length true) =
      some (withLast { u with acksSent := u.acksSent ++ [(k.durable, k.seq)] }
        { k with phase := .ended committed }) := by
  simp only [Consumer.step, Consumer.ack, getElem?_withLast, Option.bind_eq_bind,
    Option.bind_some, hp, setPhase_withLast]
  rfl

theorem fail_of_open (hx : u.handlings[i]? = some k) (hopen : ¬ k.isEnded = true) :
    u.step (.fail i) = some (u.setPhase i (.ended k.committed)) := by
  simp only [Consumer.step, Consumer.fail, hx, Option.bind_eq_bind, Option.bind_some]
  split
  · rename_i hp
    simp [Handling.isEnded, hp] at hopen
  · rfl

/-- While no other handler is under way, a message that is to be counted is delivered, counted
and acknowledged. -/
theorem exists_acked (hstopped : u.Stopped) (hm : u.messages[seq]? = some m)
    (hcountable : m.Countable) (hsubject : m.subject = durable.subject)
    (hnew : (durable, seq) ∉ u.acked) :
    ∃ v, machine.Path (fun u a => Pipeline.offered u a = true) u v ∧ v.Stopped ∧
      v.messages = u.messages ∧ v.acked = u.acked ++ [(durable, seq)] := by
  let k : Handling := ⟨durable, seq, m, .received⟩
  have hdeliver : u.step (.deliver durable seq) = some (u.withLast k) := by
    simp only [Consumer.step, Consumer.deliver, if_neg hnew, hm, Option.map_some]
    rfl
  have hoffered : Pipeline.offered u (.deliver durable seq) = true := by
    simpa [Pipeline.offered, hm] using hsubject
  have hafter : afterDecode k.message = .recording m.subject := by
    simp only [afterDecode, decodeSubject, k, if_neg (not_not.mpr hcountable.1), hcountable.2]
  have hdecode := decode_withLast (u := u) (k := k) rfl
  rw [hafter] at hdecode
  have hexecute := execute_withLast (u := u) (k := { k with phase := .recording m.subject })
    0 rfl fun k hk => not_holds_of_isEnded (hstopped k hk) _
  have hcommit := commit_withLast (u := u)
    (k := { k with phase := .recorded (recordEvent u.metrics m.subject 0) }) rfl
  let counted : Consumer :=
    { u with metrics := storeMetric u.metrics (recordEvent u.metrics m.subject 0) }
  have hack := ack_withLast (u := counted) (k := { k with phase := .acking true }) rfl
  let w : Consumer := withLast { counted with acksSent := u.acksSent ++ [(durable, seq)] }
    { k with phase := .ended true }
  have hreceive : w.step (.receiveAck durable seq) =
      some { w with acked := u.acked ++ [(durable, seq)] } := if_pos (by simp [w, withLast])
  have hpath := (offered_path hoffered hdeliver).trans ((offered_path rfl hdecode).trans
    ((offered_path rfl hexecute).trans ((offered_path rfl hcommit).trans
      ((offered_path rfl hack).trans (offered_path rfl hreceive)))))
  refine ⟨_, hpath, fun k' hk' => ?_, rfl, rfl⟩
  rcases List.mem_append.mp hk' with hk' | hk'
  · exact hstopped k' hk'
  · rw [List.mem_singleton.mp hk']
    rfl

/-- Each handler under way goes no further. -/
theorem exists_stopped (u : Consumer) :
    ∃ v, machine.Path (fun u a => Pipeline.offered u a = true) u v ∧ v.Stopped ∧
      v.messages = u.messages ∧ v.acked = u.acked := by
  let stops : Consumer → Action → Prop := fun _ a => ∃ i, a = .fail i
  let ended : Consumer → ℕ := fun u => u.handlings.countP Handling.isEnded
  have hframe : ∀ {v w : Consumer} {a : Action}, stops v a → v.step a = some w →
      w.messages = v.messages ∧ w.acked = v.acked ∧
        w.handlings.length = v.handlings.length := by
    rintro v w _ ⟨i, rfl⟩ hs
    cases effect_of_step hs with
    | failed hx hopen => exact ⟨rfl, rfl, by simp [setPhase]⟩
  have hinvariant : ∀ {v : Consumer}, machine.Path stops u v → v.messages = u.messages ∧
      v.acked = u.acked ∧ v.handlings.length = u.handlings.length := fun hv =>
    hv.invariant (I := fun v => v.messages = u.messages ∧ v.acked = u.acked ∧
      v.handlings.length = u.handlings.length) ⟨rfl, rfl, rfl⟩ fun _ hI hok hs => by
        obtain ⟨hmessages, hacked, hlength⟩ := hframe hok hs
        exact ⟨hmessages.trans hI.1, hacked.trans hI.2.1, hlength.trans hI.2.2⟩
  obtain ⟨v, hv, hstopped⟩ := Machine.Path.exists_done (M := machine) (s := u) Stopped ended
    u.handlings.length (fun hv => (hinvariant hv).2.2 ▸ List.countP_le_length) fun {v} _ => by
      by_cases hstopped : v.Stopped
      · exact .inl hstopped
      · obtain ⟨k, hk, hopen⟩ : ∃ k ∈ v.handlings, ¬ k.isEnded = true := by
          simpa [Stopped] using hstopped
        obtain ⟨i, hi⟩ := List.getElem?_of_mem hk
        exact .inr ⟨_, _, ⟨i, rfl⟩, fail_of_open hi hopen, Slots.countP_lt_modify hi hopen rfl⟩
  have hoffered : machine.Path (fun u a => Pipeline.offered u a = true) u v := by
    refine hv.mono ?_
    rintro _ _ ⟨i, rfl⟩
    rfl
  exact ⟨v, hoffered, hstopped, (hinvariant hv).1, (hinvariant hv).2.1⟩

end Consumer

namespace Pipeline

variable [UnicodeData] [EventWriter] [Interpreter] {p q : Pipeline} {a : Action}
  {ok : Pipeline → Action → Prop}

/-! ## To the end of the stream -/

/-- A step of the consumer alone. -/
def Consumes (_ : Pipeline) : Action → Prop
  | .consumer _ => True
  | .system _ => False

/-- Every message of the stream is acknowledged by the durable consumer of its subject. -/
def Drained (p : Pipeline) : Prop :=
  ∀ seq m, p.system.stream[seq]? = some m → ∀ durable : Durable, m.subject = durable.subject →
    (durable, seq) ∈ p.consumer.acked

theorem path_of_consumer {s : System} {u v : Consumer}
    (h : Consumer.machine.Path (fun u a => offered u a = true) u v) :
    machine.Path Consumes ⟨s, u⟩ ⟨s, v⟩ := by
  induction h with
  | refl => exact .refl
  | @tail t v b _ hoffered hs ih =>
    have hstep : machine.step ⟨s, t⟩ (.consumer b) = some ⟨s, v⟩ := by
      change (if offered t b then (t.step b).map _ else none) = _
      rw [if_pos hoffered, show t.step b = some v from hs]
      rfl
    exact ih.tail (show Consumes _ (.consumer b) from trivial) hstep

/-- One message comes to be acknowledged. -/
theorem exists_acked (h : machine.Reachable p) (hstopped : p.consumer.Stopped) {seq : ℕ}
    {m : Message}
    (hm : p.system.stream[seq]? = some m) {durable : Durable}
    (hsubject : m.subject = durable.subject) :
    ∃ q, machine.Path Consumes p q ∧ q.system = p.system ∧ q.consumer.Stopped ∧
      p.consumer.acked ⊆ q.consumer.acked ∧ (durable, seq) ∈ q.consumer.acked := by
  by_cases hacked : (durable, seq) ∈ p.consumer.acked
  · exact ⟨p, .refl, rfl, hstopped, fun _ h => h, hacked⟩
  · have hl := linked_of_reachable h
    have hmem : p.consumer.messages[seq]? = some m.raw := by
      rw [hl.messages, List.getElem?_map, hm, Option.map_some]
    obtain ⟨v, hv, hv_stopped, -, hv_acked⟩ := Consumer.exists_acked hstopped hmem
      (countable_of_mem hl.system (List.mem_of_getElem? hm)) hsubject hacked
    refine ⟨⟨p.system, v⟩, path_of_consumer hv, rfl, hv_stopped, ?_, ?_⟩
    · change p.consumer.acked ⊆ v.acked
      rw [hv_acked]
      exact List.subset_append_left _ _
    · change (durable, seq) ∈ v.acked
      rw [hv_acked]
      simp

theorem exists_acked_below (h : machine.Reachable p) (hstopped : p.consumer.Stopped) (n : ℕ) :
    ∃ q, machine.Path Consumes p q ∧ q.system = p.system ∧ q.consumer.Stopped ∧
      ∀ seq < n, ∀ m, p.system.stream[seq]? = some m →
        ∀ durable : Durable, m.subject = durable.subject → (durable, seq) ∈ q.consumer.acked := by
  induction n with
  | zero => exact ⟨p, .refl, rfl, hstopped, fun seq hseq => absurd hseq (Nat.not_lt_zero seq)⟩
  | succ n ih =>
    obtain ⟨q, hq, hsystem, hq_stopped, hacked⟩ := ih
    by_cases hnext : ∃ m durable, p.system.stream[n]? = some m ∧ m.subject = Durable.subject durable
    · obtain ⟨m, durable, hm, hsubject⟩ := hnext
      obtain ⟨r, hr, hr_system, hr_stopped, hmono, hnew⟩ :=
        exists_acked (h.path hq) hq_stopped (hsystem ▸ hm) hsubject
      refine ⟨r, hq.trans hr, hr_system.trans hsystem, hr_stopped,
        fun seq hseq m' hm' durable' hsubject' => ?_⟩
      rcases Nat.lt_succ_iff_lt_or_eq.mp hseq with hlt | rfl
      · exact hmono (hacked seq hlt m' hm' durable' hsubject')
      · rw [hm] at hm'
        cases hm'
        rwa [subject_injective (hsubject'.symm.trans hsubject)]
    · refine ⟨q, hq, hsystem, hq_stopped, fun seq hseq m' hm' durable' hsubject' => ?_⟩
      rcases Nat.lt_succ_iff_lt_or_eq.mp hseq with hlt | rfl
      · exact hacked seq hlt m' hm' durable' hsubject'
      · exact absurd ⟨m', durable', hm', hsubject'⟩ hnext

omit [UnicodeData] [EventWriter] [Interpreter] in
theorem Drained.le_acknowledged (h : p.Drained) (durable : Durable) :
    (p.system.stream.countP fun m => m.subject = durable.subject) ≤
      (p.acknowledged durable).length := by
  rw [← Slots.length_numbers]
  refine (List.subperm_of_subset (Slots.nodup_numbers ..) fun seq hseq => ?_).length_le
  obtain ⟨m, hm, hsubject⟩ := Slots.mem_numbers.mp hseq
  have hacked := h seq m hm durable (by simpa using hsubject)
  exact List.mem_filter.mpr
    ⟨List.mem_range.mpr (List.getElem?_eq_some_iff.mp hm).1, by simpa using hacked⟩

/-- **The stream can always be drained.** From every reachable state of the workers and the
consumer, whatever handlers are under way and whatever has failed, the consumer by itself can
come to have acknowledged every message of the stream and to have no handler under way; and then
the counter of each subject is at least the number of its messages. -/
theorem exists_drained (h : machine.Reachable p) :
    ∃ q, machine.Path Consumes p q ∧ q.system = p.system ∧ q.consumer.Stopped ∧ q.Drained ∧
      ∀ durable : Durable, (p.system.stream.countP fun m => m.subject = durable.subject) ≤
        countOf q.consumer.metrics durable.subject := by
  obtain ⟨u, hu, hu_stopped, -, -⟩ := p.consumer.exists_stopped
  have hp : machine.Path Consumes p ⟨p.system, u⟩ := path_of_consumer hu
  obtain ⟨q, hq, hsystem, hstopped, hacked⟩ :=
    exists_acked_below (h.path hp) hu_stopped p.system.stream.length
  have hdrained : q.Drained := by
    intro seq m hm durable hsubject
    rw [hsystem] at hm
    exact hacked seq (List.getElem?_eq_some_iff.mp hm).1 m hm durable hsubject
  refine ⟨q, hp.trans hq, hsystem, hstopped, hdrained, fun durable => ?_⟩
  change (⟨p.system, u⟩ : Pipeline).system.stream.countP _ ≤ _
  rw [← hsystem]
  exact (hdrained.le_acknowledged durable).trans
    ((linked_of_reachable (h.path (hp.trans hq))).acknowledged_le durable)

/-- One handler waits for the row that another has, and nothing is acknowledged. -/
def interruptedPipeline : List Action :=
  (Sample.create 0 "r" ++ Sample.cleanRun 0 0).map .system ++
    ([.deliver .triaged 0, .deliver .triaged 0, .decode 0, .decode 1, .execute 1 1] :
      List Consumer.Action).map .consumer

omit [UnicodeData] [EventWriter] [Interpreter] in
theorem exists_drained_interruptedPipeline :
    ∃ (_ : UnicodeData) (_ : EventWriter) (_ : Interpreter) (p q : Pipeline),
      machine.Reachable p ∧ p.consumer.acked = [] ∧ p.consumer.handlings.length = 2 ∧
        machine.Path Consumes p q ∧ q.Drained := by
  let _ := asciiUnicode
  let _ := plainWriter
  let _ := cPython
  have hrun : ((machine.run ⟨.empty, ⟨[], [], [], [], []⟩⟩ interruptedPipeline).any fun p =>
      p.consumer.acked = [] ∧ p.consumer.handlings.length = 2) = true := by
    decide +kernel
  obtain ⟨p, hp, hacked⟩ := Machine.Along.exists_of_runIf rfl hrun
  obtain ⟨q, hq, -, -, hdrained, -⟩ := exists_drained hp
  simp only [decide_eq_true_eq] at hacked
  exact ⟨_, _, _, p, q, hp, hacked.1, hacked.2, hq, hdrained⟩

/-! ## Counted once -/

/-- A message is delivered again only when each handler that had it has ended without a commit,
and published again only within the duplicate window. -/
def Prompt (p : Pipeline) : Action → Prop
  | .consumer (.deliver _ seq) => ∀ k ∈ p.consumer.handlings, k.seq = seq → k.phase = .ended false
  | .system a => p.system.InDuplicateWindow a
  | _ => True

omit [UnicodeData] [EventWriter] [Interpreter] in
instance (p : Pipeline) (a : Action) : Decidable (Prompt p a) := by
  unfold Prompt
  split <;> infer_instance

/-- Of two handlers of a message, one has ended without a commit. -/
def Single (u : Consumer) : Prop :=
  ∀ (i j : ℕ) (x y : Handling), i ≠ j → u.handlings[i]? = some x → u.handlings[j]? = some y →
    x.seq = y.seq → x.phase = .ended false ∨ y.phase = .ended false

omit [UnicodeData] [EventWriter] in
theorem single_step {u v : Consumer} {b : Consumer.Action} (h : Single u)
    (hdeliver : ∀ durable seq, b = .deliver durable seq →
      ∀ k ∈ u.handlings, k.seq = seq → k.phase = .ended false)
    (hs : u.step b = some v) : Single v := by
  -- A handler that moves had not ended, so the others of its message have.
  have hmoved : ∀ {i : ℕ} {x : Handling} {phase : HandlerPhase}, u.handlings[i]? = some x →
      x.phase ≠ .ended false → Single (u.setPhase i phase) := by
    intro i x phase hx hopen j l y z hne hy hz hseq
    rcases Consumer.setPhase_cases hx hy with ⟨rfl, rfl⟩ | ⟨-, hy'⟩
    · rcases Consumer.setPhase_cases hx hz with ⟨rfl, -⟩ | ⟨-, hz'⟩
      · exact absurd rfl hne
      · exact .inr ((h j l x z hne hx hz' hseq).resolve_left hopen)
    · rcases Consumer.setPhase_cases hx hz with ⟨rfl, rfl⟩ | ⟨-, hz'⟩
      · exact .inl ((h j l y x hne hy' hx hseq).resolve_right hopen)
      · exact h j l y z hne hy' hz' hseq
  cases Consumer.effect_of_step hs with
  | published => exact h
  | @delivered durable seq m hm =>
    intro i j x y hne hx hy hseq
    have hold := hdeliver durable seq rfl
    rcases Slots.append_cases hx with hx | ⟨hi, rfl⟩
    · rcases Slots.append_cases hy with hy | ⟨-, rfl⟩
      · exact h i j x y hne hx hy hseq
      · exact .inl (hold x (List.mem_of_getElem? hx) hseq)
    · rcases Slots.append_cases hy with hy | ⟨hj, -⟩
      · exact .inr (hold y (List.mem_of_getElem? hy) hseq.symm)
      · exact absurd (hi.trans hj.symm) hne
  | ignored hx hp | decoded hx hp | undecodable hx hp | executed hx hp | committed hx hp
  | acknowledged hx hp => exact hmoved hx (by simp [hp])
  | failed hx hopen => exact hmoved hx (hopen false)
  | ackReceived => exact h

theorem single_of_along (h : machine.Along Prompt p) : Single p.consumer := by
  refine h.invariant (I := fun p => Single p.consumer) (fun h0 => ?_) fun {t a u} _ hI hok hs => ?_
  · subst h0
    intro i j x y _ hx
    simp at hx
  · cases a with
    | system b =>
      obtain ⟨s, -, rfl⟩ := Option.map_eq_some_iff.mp hs
      exact hI
    | consumer b =>
      change (if offered t.consumer b then _ else none) = _ at hs
      split at hs
      · obtain ⟨v, hv, rfl⟩ := Option.map_eq_some_iff.mp hs
        refine single_step hI ?_ hv
        rintro durable seq rfl
        exact hok
      · cases hs

theorem system_along (h : machine.Along Prompt p) :
    System.machine.Along System.InDuplicateWindow p.system := by
  refine h.invariant (I := fun p => System.machine.Along System.InDuplicateWindow p.system)
    (fun h0 => ?_) fun {t a u} _ hI hok hs => ?_
  · subst h0
    exact .init rfl
  · cases a with
    | system b =>
      obtain ⟨s, hs', rfl⟩ := Option.map_eq_some_iff.mp hs
      exact hI.path (.single hok hs')
    | consumer b =>
      change (if offered t.consumer b then _ else none) = _ at hs
      split at hs
      · obtain ⟨v, -, rfl⟩ := Option.map_eq_some_iff.mp hs
        exact hI
      · cases hs

omit [UnicodeData] [EventWriter] [Interpreter] in
/-- The handlers that have committed are for different messages. -/
theorem nodup_committed {u : Consumer} (h : Single u) {P : Handling → Bool}
    (hP : ∀ k, P k = true → k.committed = true) :
    ((u.handlings.filter P).map Handling.seq).Nodup := by
  have hpairwise : u.handlings.Pairwise fun x y => x.seq = y.seq →
      x.phase = .ended false ∨ y.phase = .ended false := by
    rw [List.pairwise_iff_getElem]
    intro i j hi hj hlt
    exact h i j _ _ hlt.ne (List.getElem?_eq_getElem hi) (List.getElem?_eq_getElem hj)
  refine List.pairwise_map.mpr ((hpairwise.filter P).imp_of_mem fun {x y} hx hy hxy hseq => ?_)
  rcases hxy hseq with hp | hp
  · have hc := hP x (List.mem_filter.mp hx).2
    simp [Handling.committed, hp] at hc
  · have hc := hP y (List.mem_filter.mp hy).2
    simp [Handling.committed, hp] at hc

theorem Linked.count_le (h : Linked p) (hsingle : Single p.consumer) (durable : Durable) :
    countOf p.consumer.metrics durable.subject ≤
      p.system.stream.countP fun m => m.subject = durable.subject := by
  rw [h.count, List.countP_eq_length_filter, ← List.length_map (f := Handling.seq)]
  have hnodup := nodup_committed (P := fun k => k.committed ∧ k.durable = durable) hsingle
    fun k hk => (by simpa using hk : k.committed = true ∧ k.durable = durable).1
  refine Slots.length_le_countP hnodup fun seq hseq => ?_
  obtain ⟨k, hk, rfl⟩ := List.mem_map.mp hseq
  obtain ⟨hmem, hk⟩ := List.mem_filter.mp hk
  obtain ⟨m, hm, -, hsubject⟩ := h.handled hmem
  have hdurable : k.durable = durable := (of_decide_eq_true hk).2
  exact ⟨m, hm, by simpa [hdurable] using hsubject⟩

/-- The reports that the stream has an event of on a subject. -/
def reportsOn (stream : List Message) (subject : String) : List String :=
  (stream.filter fun m => m.subject = subject).map fun m => m.payload.reportId

/-- **Each report is counted once.** In every run in which a message is delivered again only when
the handlers that had it have ended without a commit, and published again only within the
duplicate window: no report has two events on a subject, and the counter of a subject is at most
the number of the reports that have one, and is that number once every message is acknowledged. -/
theorem counts_once (h : machine.Along Prompt p) (durable : Durable) :
    (reportsOn p.system.stream durable.subject).Nodup ∧
    countOf p.consumer.metrics durable.subject ≤
      (reportsOn p.system.stream durable.subject).length ∧
    (p.Drained → countOf p.consumer.metrics durable.subject =
      (reportsOn p.system.stream durable.subject).length) := by
  have hl := linked_of_reachable h.reachable
  have hlength : (reportsOn p.system.stream durable.subject).length =
      p.system.stream.countP fun m => m.subject = durable.subject := by
    rw [reportsOn, List.length_map, List.countP_eq_length_filter]
  have hle := hl.count_le (single_of_along h) durable
  rw [hlength]
  refine ⟨?_, hle, fun hdrained => le_antisymm hle ?_⟩
  · have hcausal := System.causal_of_reachable hl.system
    have hids := System.nodup_of_along (system_along h)
    have hpairwise := List.pairwise_map.mp hids
    refine List.pairwise_map.mpr ((hpairwise.filter _).imp_of_mem fun {m m'} hm hm' hne heq => ?_)
    obtain ⟨hmem, hsubject⟩ := List.mem_filter.mp hm
    obtain ⟨hmem', hsubject'⟩ := List.mem_filter.mp hm'
    simp only [decide_eq_true_eq] at hsubject hsubject'
    exact hne ((System.msgId_eq_iff (hcausal.messages m hmem) (hcausal.messages m' hmem')).mpr
      ⟨hsubject.trans hsubject'.symm, heq⟩)
  · exact (hdrained.le_acknowledged durable).trans (hl.acknowledged_le durable)

omit [UnicodeData] [EventWriter] [Interpreter] in
theorem counts_once_cleanPipeline :
    ∃ (_ : UnicodeData) (_ : EventWriter) (_ : Interpreter) (p : Pipeline),
      machine.Along Prompt p ∧ reportsOn p.system.stream subjectReportTriaged = ["r"] ∧
        p.consumer.acked = [(.triaged, 0), (.routed, 1)] ∧
        countOf p.consumer.metrics subjectReportTriaged ≤ 1 := by
  let _ := asciiUnicode
  let _ := plainWriter
  let _ := cPython
  have hrun : ((machine.runIf Prompt ⟨.empty, ⟨[], [], [], [], []⟩⟩ cleanPipeline).any fun p =>
      reportsOn p.system.stream subjectReportTriaged = ["r"] ∧
        p.consumer.acked = [(.triaged, 0), (.routed, 1)]) = true := by
    decide +kernel
  obtain ⟨p, hp, hshown⟩ := Machine.Along.exists_of_runIf rfl hrun
  simp only [decide_eq_true_eq] at hshown
  have hle := (counts_once hp .triaged).2.1
  simp only [Durable.subject, hshown.1] at hle
  exact ⟨_, _, _, p, hp, hshown.1, hshown.2, hle⟩

end Pipeline

/-! ## What is shown -/

def EventMetric.key (row : EventMetric) : Collated := row.subject

/-- `list_event_metrics`: the rows in the order of their subjects. -/
def listEventMetrics [Collation] (metrics : List EventMetric) : List EventMetric :=
  metrics.mergeSort fun a b => a.key ≤ b.key

section
variable {metrics : List EventMetric} {row : EventMetric}

theorem mem_listEventMetrics [Collation] : row ∈ listEventMetrics metrics ↔ row ∈ metrics :=
  List.mem_mergeSort

/-- The subjects are distinct, so the order of the rows is strict. -/
theorem sorted_listEventMetrics [Collation] (h : (metrics.map EventMetric.subject).Nodup) :
    (listEventMetrics metrics).Pairwise fun a b => a.key < b.key := by
  have hle : (listEventMetrics metrics).Pairwise fun a b => decide (a.key ≤ b.key) = true := by
    refine List.pairwise_mergeSort (fun a b c hab hbc => ?_) (fun a b => ?_) metrics
    · simp only [decide_eq_true_eq] at hab hbc ⊢
      exact hab.trans hbc
    · simpa using le_total a.key b.key
  have hperm : (listEventMetrics metrics).Perm metrics := List.mergeSort_perm _ _
  have hne := List.pairwise_map.mp ((hperm.map EventMetric.subject).nodup_iff.mpr h)
  refine (hle.and hne).imp fun {a b} hab => ?_
  exact lt_of_le_of_ne (of_decide_eq_true hab.1) hab.2

theorem countOf_of_mem (h : (metrics.map EventMetric.subject).Nodup) (hrow : row ∈ metrics) :
    countOf metrics row.subject = row.count := by
  cases hfind : metrics.find? fun r => r.subject = row.subject with
  | none => simpa using List.find?_eq_none.mp hfind row hrow
  | some r =>
    have hr : r.subject = row.subject := by simpa using List.find?_some hfind
    rw [countOf, hfind, List.inj_on_of_nodup_map h (List.mem_of_find?_eq_some hfind) hrow hr]
    rfl

theorem exists_row_of_count_pos {subject : String} (h : 0 < countOf metrics subject) :
    ∃ r ∈ metrics, r.subject = subject ∧ r.count = countOf metrics subject := by
  cases hfind : metrics.find? fun r => r.subject = subject with
  | none => simp [countOf, hfind] at h
  | some r =>
    refine ⟨r, List.mem_of_find?_eq_some hfind, by simpa using List.find?_some hfind, ?_⟩
    simp [countOf, hfind]

end

namespace Pipeline

section
variable [JsonParser] {u v : Consumer}

/-- Every row counts messages of a known subject, one at least. -/
theorem rows_of_path (hu : Consumer.machine.Path (fun _ _ => True) ⟨[], [], [], [], []⟩ u) :
    ∀ row ∈ u.metrics, 0 < row.count ∧ row.subject ∈ knownSubjects := by
  refine hu.invariant (I := fun u => ∀ row ∈ u.metrics, 0 < row.count ∧
    row.subject ∈ knownSubjects) (by simp) fun {t a u} ht hI _ hs => ?_
  cases Consumer.effect_of_step hs with
  | @committed i raises x row hx hp =>
    have hfits := (Consumer.accounted_of_empty ht).fits x (List.mem_of_getElem? hx)
    simp only [Consumer.Fits, hp] at hfits
    obtain ⟨hsubject, hcountable, hcount⟩ := hfits
    have hrow : 0 < row.count ∧ row.subject ∈ knownSubjects := by
      rw [hcount, hsubject]
      exact ⟨Nat.succ_pos _, hcountable.1⟩
    intro r hr
    change r ∈ storeMetric t.metrics row at hr
    rw [storeMetric] at hr
    split at hr
    · obtain ⟨r', hr', rfl⟩ := List.mem_map.mp hr
      split
      · exact hrow
      · exact hI r' hr'
    · rcases List.mem_append.mp hr with hr | hr
      · exact hI r hr
      · rw [List.mem_singleton.mp hr]
        exact hrow
  | _ => exact hI

/-- No counter ever goes back. -/
theorem count_mono_step {d : Consumer} (hI : Consumer.Accounted d u) {b : Consumer.Action}
    (hs : u.step b = some v) (subject : String) :
    countOf u.metrics subject ≤ countOf v.metrics subject := by
  cases Consumer.effect_of_step hs with
  | @committed i raises x row hx hp =>
    have hfits := hI.fits x (List.mem_of_getElem? hx)
    simp only [Consumer.Fits, hp] at hfits
    change _ ≤ countOf (storeMetric u.metrics row) subject
    rw [countOf_storeMetric]
    split
    · rename_i hsubject
      rw [hfits.2.2, hsubject]
      exact Nat.le_succ _
    · exact le_rfl
  | _ => exact le_rfl

end

variable [UnicodeData] [EventWriter] [Interpreter] {p q : Pipeline}
  {ok : Pipeline → Action → Prop}

theorem count_mono (h : machine.Reachable p) (hq : machine.Path ok p q) (subject : String) :
    countOf p.consumer.metrics subject ≤ countOf q.consumer.metrics subject := by
  refine hq.invariant (I := fun q => countOf p.consumer.metrics subject ≤
    countOf q.consumer.metrics subject) le_rfl fun {t a u} ht hI _ hs => ?_
  have hl := linked_of_reachable (h.path ht)
  cases a with
  | system b =>
    obtain ⟨s, -, rfl⟩ := Option.map_eq_some_iff.mp hs
    exact hI
  | consumer b =>
    change (if offered t.consumer b then _ else none) = _ at hs
    split at hs
    · obtain ⟨v, hv, rfl⟩ := Option.map_eq_some_iff.mp hs
      exact hI.trans (count_mono_step hl.accounted hv subject)
    · cases hs

/-- **What `GET /metrics/events` shows.** In every reachable state: one row for each subject of
which a message has been counted and no others, in the order of their subjects, so two at most;
each with the number of the handlers of its durable consumer that have committed, which is not
zero; and in every later state the row is still there, with a count that is no lower. -/
theorem metrics_shown [Collation] (h : machine.Reachable p) :
    ((listEventMetrics p.consumer.metrics).Pairwise fun a b => a.key < b.key) ∧
    (listEventMetrics p.consumer.metrics).length ≤ 2 ∧
    (∀ k ∈ p.consumer.handlings, k.committed = true →
      ∃ row ∈ listEventMetrics p.consumer.metrics, row.subject = k.durable.subject) ∧
    ∀ row ∈ listEventMetrics p.consumer.metrics,
      (∃ durable : Durable, row.subject = durable.subject ∧ 0 < row.count ∧
        row.count = p.consumer.handlings.countP fun k => k.committed ∧ k.durable = durable) ∧
      ∀ q, machine.Path (fun _ _ => True) p q →
        ∃ row' ∈ listEventMetrics q.consumer.metrics, row'.subject = row.subject ∧
          row.count ≤ row'.count := by
  have hl := linked_of_reachable h
  have hkeys := hl.accounted.keys
  have hrows := rows_of_path hl.consumer
  refine ⟨sorted_listEventMetrics hkeys, ?_, fun k hk hc => ?_, fun row hrow => ?_⟩
  · have hsub : p.consumer.metrics.map EventMetric.subject ⊆ knownSubjects := by
      intro subject hsubject
      obtain ⟨row, hrow, rfl⟩ := List.mem_map.mp hsubject
      exact (hrows row hrow).2
    have hle := (List.subperm_of_subset hkeys hsub).length_le
    rwa [List.length_map, ← List.length_mergeSort] at hle
  · have hpos : 0 < countOf p.consumer.metrics k.durable.subject := by
      rw [hl.count, List.countP_pos_iff]
      exact ⟨k, hk, by simp [hc]⟩
    obtain ⟨row, hrow, hsubject, -⟩ := exists_row_of_count_pos hpos
    exact ⟨row, mem_listEventMetrics.mpr hrow, hsubject⟩
  · have hmem := mem_listEventMetrics.mp hrow
    obtain ⟨hpos, hknown⟩ := hrows row hmem
    have hcount := countOf_of_mem hkeys hmem
    refine ⟨?_, fun q hq => ?_⟩
    · obtain ⟨durable, hdurable⟩ : ∃ durable : Durable, row.subject = durable.subject := by
        simp only [knownSubjects, List.mem_cons, List.not_mem_nil, or_false] at hknown
        exact hknown.elim (fun h => ⟨.triaged, h⟩) fun h => ⟨.routed, h⟩
      refine ⟨durable, hdurable, hpos, ?_⟩
      rw [← hcount, hdurable, hl.count]
    · have hle := count_mono h hq row.subject
      rw [hcount] at hle
      obtain ⟨row', hrow', hsubject, hcount'⟩ := exists_row_of_count_pos (hpos.trans_le hle)
      exact ⟨row', mem_listEventMetrics.mpr hrow', hsubject, by rwa [hcount']⟩

omit [UnicodeData] [EventWriter] [Interpreter] in
theorem metrics_shown_cleanPipeline :
    ∃ (_ : UnicodeData) (_ : EventWriter) (_ : Interpreter) (_ : Collation) (p : Pipeline),
      machine.Reachable p ∧
        (p.consumer.metrics.map fun row => (row.subject, row.count)) =
          [(subjectReportTriaged, 1), (subjectQueueRouted, 1)] ∧
        (listEventMetrics p.consumer.metrics).length ≤ 2 ∧
        (listEventMetrics p.consumer.metrics).Pairwise fun a b => a.key < b.key := by
  let _ := asciiUnicode
  let _ := plainWriter
  let _ := cPython
  let _ := codePointOrder
  have hrun : ((machine.run ⟨.empty, ⟨[], [], [], [], []⟩⟩ cleanPipeline).any fun p =>
      (p.consumer.metrics.map fun row => (row.subject, row.count)) =
        [(subjectReportTriaged, 1), (subjectQueueRouted, 1)]) = true := by
    decide +kernel
  obtain ⟨p, hp, hrows⟩ := Machine.Along.exists_of_runIf rfl hrun
  obtain ⟨hsorted, hlength, -⟩ := metrics_shown hp
  exact ⟨_, _, _, _, p, hp, by simpa using hrows, hlength, hsorted⟩

end Pipeline

end ReportTriage

import ReportTriage.Consumer

/-!
# Redelivery

What is not acknowledged is delivered again. A handler is meant to leave a message without an
acknowledgement only if its transaction has failed, so that the next delivery may do better; a
payload that cannot be read is to be acknowledged at once. `decode_subject` is called before the
handler's `try`, and a payload that makes the parser raise anything but a `ValueError` ends the
handler there, every time it is delivered.

## Main definitions

* `Consumer.Moves`, `Consumer.moves_of_step` — the steps of one handler.
* `Consumer.Acking`, `Consumer.RecordingFails`, `Consumer.NotBegun` — why a handler has ended.
* `Consumer.Settles` — no delivery of a message is lost on its consumer.
* `Consumer.settles_iff` — exactly the messages whose payload can be read or rejected.
-/

namespace ReportTriage

namespace Consumer

/-! ## One handler -/

section
variable [JsonParser] {d u v : Consumer} {a : Action} {i : ℕ} {h k : Handling} {m : RawMessage}

/-- A step of handler `i`, which takes it to a phase. -/
inductive Moves (i : ℕ) (h : Handling) : Action → HandlerPhase → Prop
  | ignored (hp : h.phase = .received) (hdecode : decodeSubject h.message = .ok none) :
      Moves i h (.decode i) (.acking false)
  | decoded {subject : String} (hp : h.phase = .received)
      (hdecode : decodeSubject h.message = .ok (some subject)) :
      Moves i h (.decode i) (.recording subject)
  | raised (hp : h.phase = .received) (hdecode : decodeSubject h.message = .error ()) :
      Moves i h (.decode i) (.ended false)
  | executed {now : Time} {subject : String} {row : EventMetric}
      (hp : h.phase = .recording subject) : Moves i h (.execute i now) (.recorded row)
  | committed {raises : Bool} {row : EventMetric} (hp : h.phase = .recorded row) :
      Moves i h (.commit i raises) (if raises then .ended true else .acking true)
  | acknowledged {sent committed : Bool} (hp : h.phase = .acking committed) :
      Moves i h (.ack i sent) (.ended committed)
  | failed (hopen : ∀ committed, h.phase ≠ .ended committed) :
      Moves i h (.fail i) (.ended h.committed)

/-- Where `decode_subject` takes a handler. -/
def afterDecode (m : RawMessage) : HandlerPhase :=
  match decodeSubject m with
  | .ok none => .acking false
  | .ok (some subject) => .recording subject
  | .error () => .ended false

theorem decode_of_received (hi : u.handlings[i]? = some h) (hp : h.phase = .received) :
    u.step (.decode i) = some (u.setPhase i (afterDecode h.message)) := by
  rw [Consumer.step, Consumer.decode, hi, Option.bind_eq_bind, Option.bind_some, afterDecode]
  cases hdecode : decodeSubject h.message with
  | error e => simp only [hp]
  | ok found => cases found <;> simp only [hp]

theorem Moves.decode (hp : h.phase = .received) :
    Moves i h (.decode i) (afterDecode h.message) := by
  simp only [afterDecode]
  split
  · exact .ignored hp ‹_›
  · exact .decoded hp ‹_›
  · exact .raised hp ‹_›

/-- After a step a handler is as before, new, or has moved by this step. -/
theorem moves_of_step (hs : u.step a = some v) (hi : v.handlings[i]? = some k) :
    u.handlings[i]? = some k ∨ k.phase = .received ∨
      ∃ h, u.handlings[i]? = some h ∧ k.message = h.message ∧ Moves i h a k.phase := by
  have hset : ∀ {j : ℕ} {h : Handling} {p : HandlerPhase}, u.handlings[j]? = some h →
      (u.setPhase j p).handlings[i]? = some k → Moves j h a p →
      u.handlings[i]? = some k ∨ k.phase = .received ∨
        ∃ h, u.handlings[i]? = some h ∧ k.message = h.message ∧ Moves i h a k.phase := by
    intro j h p hx hk hmove
    rcases setPhase_cases hx hk with ⟨rfl, rfl⟩ | ⟨-, hk⟩
    · exact .inr (.inr ⟨h, hx, rfl, hmove⟩)
    · exact .inl hk
  cases effect_of_step hs with
  | published => exact .inl hi
  | delivered hm =>
    rcases Slots.append_cases hi with hold | ⟨-, rfl⟩
    · exact .inl hold
    · exact .inr (.inl rfl)
  | ignored hx hp hdecode => exact hset hx hi (.ignored hp hdecode)
  | decoded hx hp hdecode => exact hset hx hi (.decoded hp hdecode)
  | undecodable hx hp =>
    rw [decode_of_received hx hp, Option.some.injEq] at hs
    rw [← hs] at hi
    exact hset hx hi (.decode hp)
  | executed hx hp _ => exact hset hx hi (.executed hp)
  | committed hx hp => exact hset hx hi (.committed hp)
  | acknowledged hx hp => exact hset hx hi (.acknowledged hp)
  | failed hx hopen => exact hset hx hi (.failed hopen)
  | ackReceived _ => exact .inl hi

/-! ## How it ends -/

omit [JsonParser] in
/-- Handler `i` is at its `msg.ack()`: it has made the call. -/
def Acking (i : ℕ) (u : Consumer) : Prop :=
  ∃ h committed, u.handlings[i]? = some h ∧ h.phase = .acking committed

omit [JsonParser] in
/-- The transaction of handler `i` raises: its upsert, or its commit. -/
def RecordingFails (i : ℕ) (u : Consumer) (a : Action) : Prop :=
  ∃ h, u.handlings[i]? = some h ∧
    ((∃ subject, h.phase = .recording subject) ∨ ∃ row, h.phase = .recorded row) ∧
    (a = .fail i ∨ a = .commit i true)

omit [JsonParser] in
/-- The consumer stops before handler `i` has begun. -/
def NotBegun (i : ℕ) (u : Consumer) (a : Action) : Prop :=
  a = .fail i ∧ ∃ h, u.handlings[i]? = some h ∧ h.phase = .received

/-- What ends a handler is one of these, or `decode_subject` raising. -/
theorem ended_of_moves {committed : Bool} (hi : u.handlings[i]? = some h)
    (hmove : Moves i h a (.ended committed)) :
    (Acking i u ∨ RecordingFails i u a ∨ NotBegun i u a) ∨
      decodeSubject h.message = .error () := by
  generalize hphase : HandlerPhase.ended committed = phase at hmove
  cases hmove with
  | ignored | decoded | executed => cases hphase
  | raised _ hdecode => exact .inr hdecode
  | @committed raises row hp =>
    cases raises with
    | false => cases hphase
    | true => exact .inl (.inr (.inl ⟨h, hi, .inr ⟨row, hp⟩, .inr rfl⟩))
  | @acknowledged sent committed hp => exact .inl (.inl ⟨h, committed, hi, hp⟩)
  | failed hopen =>
    refine .inl ?_
    cases hp : h.phase with
    | received => exact .inr (.inr ⟨rfl, h, hi, hp⟩)
    | recording subject => exact .inr (.inl ⟨h, hi, .inl ⟨subject, hp⟩, .inl rfl⟩)
    | recorded row => exact .inr (.inl ⟨h, hi, .inr ⟨row, hp⟩, .inl rfl⟩)
    | acking committed => exact .inl ⟨h, committed, hi, hp⟩
    | ended committed => exact absurd hp (hopen committed)

/-- A handler that has ended has done so by a step of the trace. -/
theorem ended_of_trace {l : List (Consumer × Action)} {committed : Bool} (hd : machine.init d)
    (hl : machine.Trace d l u) (hi : u.handlings[i]? = some h)
    (hended : h.phase = .ended committed) :
    (∃ p ∈ l, Acking i p.1 ∨ RecordingFails i p.1 p.2 ∨ NotBegun i p.1 p.2) ∨
      decodeSubject h.message = .error () := by
  induction hl generalizing h committed with
  | nil =>
    rw [hd.2.1] at hi
    cases hi
  | @snoc l t u a hl hs ih =>
    rcases moves_of_step hs hi with hold | hnew | ⟨k, hk, hmessage, hmove⟩
    · refine (ih hold hended).imp_left ?_
      rintro ⟨p, hp, hwhy⟩
      exact ⟨p, List.mem_append_left _ hp, hwhy⟩
    · rw [hended] at hnew
      cases hnew
    · rw [hended] at hmove
      rw [hmessage]
      exact (ended_of_moves hk hmove).imp_left fun hwhy => ⟨(t, a), by simp, hwhy⟩

/-! ## Payloads that are not accepted -/

/-- **The rule for handlers.** What holds when a message is received, and is kept by every move of
its handler, holds of each handler in a run. -/
theorem phase_of_path {P : RawMessage → HandlerPhase → Prop} (hreceived : ∀ m, P m .received)
    (hkept : ∀ {i h a p}, P h.message h.phase → Moves i h a p → P h.message p)
    (hd : machine.init d) (hu : machine.Path (fun _ _ => True) d u)
    (hi : u.handlings[i]? = some h) : P h.message h.phase := by
  induction hu generalizing h with
  | refl =>
    rw [hd.2.1] at hi
    cases hi
  | @tail t u a _ _ hs ih =>
    rcases moves_of_step hs hi with hold | hnew | ⟨k, hk, hmessage, hmove⟩
    · exact ih hold
    · rw [hnew]
      exact hreceived h.message
    · rw [hmessage]
      exact hkept (ih hk) hmove

/-- A handler that is not to record its message only ever acknowledges it. -/
theorem ignored_of_path (hd : machine.init d) (hu : machine.Path (fun _ _ => True) d u)
    (hi : u.handlings[i]? = some h) (hdecode : decodeSubject h.message = .ok none) :
    h.phase = .received ∨ h.phase = .acking false ∨ h.phase = .ended false := by
  refine phase_of_path (P := fun m p => decodeSubject m = .ok none →
    p = .received ∨ p = .acking false ∨ p = .ended false) ?_ ?_ hd hu hi hdecode
  · intro m _
    exact .inl rfl
  · intro i h a p hP hmove hdecode
    have hphase := hP hdecode
    cases hmove with
    | ignored => exact .inr (.inl rfl)
    | decoded _ hdecode' | raised _ hdecode' => rw [hdecode] at hdecode'; cases hdecode'
    | executed hp | committed hp => simp [hp] at hphase
    | acknowledged hp =>
      rw [hp] at hphase
      simpa using hphase
    | failed hopen =>
      rcases hphase with hp | hp | hp
      · simp [Handling.committed, hp]
      · simp [Handling.committed, hp]
      · exact absurd hp (hopen false)

theorem execute_eq_none {now : Time} (hi : u.handlings[i]? = some h)
    (hp : ∀ subject, h.phase ≠ .recording subject) : u.step (.execute i now) = none := by
  cases hs : u.step (.execute i now) with
  | none => rfl
  | some v =>
    cases effect_of_step hs with
    | executed hx hphase _ =>
      rw [hi] at hx
      cases hx
      exact absurd hphase (hp _)

theorem commit_eq_none {raises : Bool} (hi : u.handlings[i]? = some h)
    (hp : ∀ row, h.phase ≠ .recorded row) : u.step (.commit i raises) = none := by
  cases hs : u.step (.commit i raises) with
  | none => rfl
  | some v =>
    cases effect_of_step hs with
    | committed hx hphase =>
      rw [hi] at hx
      cases hx
      exact absurd hphase (hp _)

/-! ## The way to an acknowledgement -/

theorem path_of_step (hs : u.step a = some v) : machine.Path (fun _ _ => True) u v :=
  .single trivial hs

theorem acked_of_acking {committed : Bool} (hi : u.handlings[i]? = some h)
    (hp : h.phase = .acking committed) :
    ∃ v, machine.Path (fun _ _ => True) u v ∧ (h.durable, h.seq) ∈ v.acked := by
  let w : Consumer := { u.setPhase i (.ended committed) with
    acksSent := u.acksSent ++ [(h.durable, h.seq)] }
  have hack : u.step (.ack i true) = some w := by
    simp only [Consumer.step, Consumer.ack, hi, Option.bind_eq_bind, Option.bind_some, hp]
    rfl
  have hsent : (h.durable, h.seq) ∈ w.acksSent := by simp [w]
  have hreceive : w.step (.receiveAck h.durable h.seq) =
      some { w with acked := w.acked ++ [(h.durable, h.seq)] } := if_pos hsent
  refine ⟨_, (path_of_step hack).trans (path_of_step hreceive), ?_⟩
  simp

/-- A handler whose message can be read or rejected, and whose subject is free, comes to its
acknowledgement. -/
theorem acking_of_received (hi : u.handlings[i]? = some h) (hp : h.phase = .received)
    (hok : decodeSubject h.message ≠ .error ())
    (hfree : ∀ k ∈ u.handlings, ¬ k.Holds h.message.subject) :
    ∃ v committed, machine.Path (fun _ _ => True) u v ∧
      v.handlings[i]? = some { h with phase := .acking committed } := by
  have hdecode := decode_of_received hi hp
  have hmove : ∀ p, (u.setPhase i p).handlings[i]? = some { h with phase := p } :=
    fun p => Slots.modify_self hi
  cases hfound : decodeSubject h.message with
  | error e => exact absurd hfound hok
  | ok found =>
    cases found with
    | none =>
      have hafter : afterDecode h.message = .acking false := by rw [afterDecode, hfound]
      rw [hafter] at hdecode
      exact ⟨_, false, path_of_step hdecode, hmove _⟩
    | some subject =>
      have hafter : afterDecode h.message = .recording subject := by rw [afterDecode, hfound]
      obtain rfl := (countable_of_decode hfound).1
      rw [hafter] at hdecode
      let w := u.setPhase i (.recording h.message.subject)
      let row := recordEvent w.metrics h.message.subject 0
      have hwfree : ¬ ∃ k ∈ w.handlings, k.Holds h.message.subject := by
        rintro ⟨k, hk, hholds⟩
        rcases mem_setPhase_cases hi hk with rfl | hk
        · exact hholds
        · exact hfree k hk hholds
      have hexecute : w.step (.execute i 0) = some (w.setPhase i (.recorded row)) := by
        simp only [Consumer.step, Consumer.execute, w, hmove, Option.bind_eq_bind,
          Option.bind_some]
        exact if_neg hwfree
      have hrecorded : (w.setPhase i (.recorded row)).handlings[i]? =
          some { h with phase := .recorded row } :=
        Slots.modify_self (x := { h with phase := .recording h.message.subject }) (hmove _)
      have hcommit : (w.setPhase i (.recorded row)).step (.commit i false) =
          some { (w.setPhase i (.recorded row)).setPhase i (.acking true) with
            metrics := storeMetric w.metrics row } := by
        simp only [Consumer.step, Consumer.commit, hrecorded, Option.bind_eq_bind,
          Option.bind_some]
        rfl
      refine ⟨_, true, (path_of_step hdecode).trans
        ((path_of_step hexecute).trans (path_of_step hcommit)), ?_⟩
      exact Slots.modify_self (x := { h with phase := .recorded row }) hrecorded

/-- If a handler holds the row of a subject, it may fail, and none does then. -/
theorem exists_free (hI : Accounted d u) (subject : String) :
    ∃ v, machine.Path (fun _ _ => True) u v ∧ (∀ k ∈ v.handlings, ¬ k.Holds subject) ∧
      v.messages = u.messages ∧ v.acked = u.acked := by
  by_cases hheld : ∃ k ∈ u.handlings, k.Holds subject
  · obtain ⟨h, hh, hholds⟩ := hheld
    obtain ⟨i, hi⟩ := List.getElem?_of_mem hh
    have hrow : ∀ {k : Handling}, k.Holds subject → ∃ row, k.phase = .recorded row ∧
        row.subject = subject := by
      intro k hk
      simp only [Handling.Holds] at hk
      split at hk
      · exact ⟨_, ‹_›, hk⟩
      · cases hk
    obtain ⟨row, hp, hsubject⟩ := hrow hholds
    have hfail : u.step (.fail i) = some (u.setPhase i (.ended false)) := by
      simp only [Consumer.step, Consumer.fail, hi, Option.bind_eq_bind, Option.bind_some, hp,
        Handling.committed]
    refine ⟨_, path_of_step hfail, ?_, rfl, rfl⟩
    intro k hk hkholds
    obtain ⟨j, hj⟩ := List.getElem?_of_mem hk
    rcases setPhase_cases hi hj with ⟨-, rfl⟩ | ⟨hne, hold⟩
    · exact hkholds
    · obtain ⟨row', hp', hsubject'⟩ := hrow hkholds
      exact hI.apart j i k h row' row hne hold hi hp' hp (hsubject'.trans hsubject.symm)
  · exact ⟨u, .refl, fun k hk hholds => hheld ⟨k, hk, hholds⟩, rfl, rfl⟩

/-- A message that can be read or rejected can always come to be acknowledged. -/
theorem acked_of_path {durable : Durable} {seq : ℕ} (hd : machine.init d)
    (hu : machine.Path (fun _ _ => True) d u) (hm : u.messages[seq]? = some m)
    (hok : decodeSubject m ≠ .error ()) :
    ∃ v, machine.Path (fun _ _ => True) u v ∧ (durable, seq) ∈ v.acked := by
  obtain ⟨w, hw, hfree, hmessages, hacked⟩ := exists_free (accounted_of_path hd hu) m.subject
  by_cases hdone : (durable, seq) ∈ w.acked
  · exact ⟨w, hw, hdone⟩
  · let h : Handling := ⟨durable, seq, m, .received⟩
    let x : Consumer := { w with handlings := w.handlings ++ [h] }
    have hdeliver : w.step (.deliver durable seq) = some x := by
      simp only [Consumer.step, Consumer.deliver, if_neg hdone, hmessages, hm, Option.map_some, x,
        h]
    have hlast : x.handlings[w.handlings.length]? = some h := List.getElem?_concat_length
    have hxfree : ∀ k ∈ x.handlings, ¬ k.Holds m.subject := by
      intro k hk
      rcases List.mem_append.mp hk with hk | hk
      · exact hfree k hk
      · rw [List.mem_singleton.mp hk]
        exact id
    obtain ⟨y, committed, hy, hacking⟩ := acking_of_received hlast rfl hok hxfree
    obtain ⟨z, hz, hmem⟩ := acked_of_acking hacking rfl
    exact ⟨z, hw.trans ((path_of_step hdeliver).trans (hy.trans hz)), hmem⟩

/-! ## Payloads that end the handler -/

theorem decodeSubject_eq_error :
    decodeSubject m = .error () ↔
      m.subject ∈ knownSubjects ∧ JsonParser.loads m.data = .otherError := by
  simp only [decodeSubject]
  split
  · simp_all
  · split <;> simp_all

/-- A payload that is not accepted, but does not end the handler, is ignored. -/
theorem decodeSubject_of_ne_value (hm : decodeSubject m ≠ .error ())
    (hloads : JsonParser.loads m.data ≠ .value) : decodeSubject m = .ok none := by
  rw [Ne, decodeSubject_eq_error] at hm
  simp only [decodeSubject]
  split
  · rfl
  · split <;> simp_all

theorem phase_of_poison (hd : machine.init d) (hu : machine.Path (fun _ _ => True) d u)
    (hi : u.handlings[i]? = some h) (hdecode : decodeSubject h.message = .error ()) :
    h.phase = .received ∨ h.phase = .ended false := by
  refine phase_of_path (P := fun m p => decodeSubject m = .error () →
    p = .received ∨ p = .ended false) ?_ ?_ hd hu hi hdecode
  · intro m _
    exact .inl rfl
  · intro i h a p hP hmove hdecode
    have hphase := hP hdecode
    cases hmove with
    | ignored _ hdecode' | decoded _ hdecode' => rw [hdecode] at hdecode'; cases hdecode'
    | raised => exact .inr rfl
    | executed hp | committed hp | acknowledged hp => simp [hp] at hphase
    | failed hopen =>
      rcases hphase with hp | hp
      · simp [Handling.committed, hp]
      · exact absurd hp (hopen false)

/-- A message on which `decode_subject` raises is never acknowledged. -/
theorem not_acked_of_poison (hd : machine.init d) (hu : machine.Path (fun _ _ => True) d u)
    (hm : decodeSubject m = .error ()) {q : Durable × ℕ} (hq : q ∈ u.acksSent ∨ q ∈ u.acked) :
    u.messages[q.2]? ≠ some m := by
  suffices hall : ∀ q, q ∈ u.acksSent ∨ q ∈ u.acked → u.messages[q.2]? ≠ some m from hall q hq
  refine hu.invariant (I := fun u => ∀ q, q ∈ u.acksSent ∨ q ∈ u.acked →
    u.messages[q.2]? ≠ some m) ?_ ?_
  · rw [hd.2.2.1, hd.2.2.2]
    simp
  · intro t a v ht hI _ hs q hq
    have hacc := accounted_of_path hd ht
    cases effect_of_step hs with
    | published =>
      obtain ⟨m', hm', -⟩ := hacc.acks q hq
      have hne := hI q hq
      rw [hm'] at hne
      rw [Slots.append_of_some hm']
      exact hne
    | @acknowledged j sent h committed hx hp =>
      have hacking : h.message ≠ m := by
        rintro rfl
        rcases phase_of_poison hd ht hx hm with hphase | hphase <;> rw [hp] at hphase <;>
          cases hphase
      have hown : t.messages[h.seq]? ≠ some m := by
        rw [hacc.message h (List.mem_of_getElem? hx)]
        exact fun heq => hacking (Option.some.inj heq)
      rcases hq with hq | hq
      · split at hq
        · rcases List.mem_append.mp hq with hq | hq
          · exact hI q (.inl hq)
          · rw [List.mem_singleton.mp hq]
            exact hown
        · exact hI q (.inl hq)
      · exact hI q (.inr hq)
    | ackReceived hsent =>
      rcases hq with hq | hq
      · exact hI q (.inl hq)
      · rcases List.mem_append.mp hq with hq | hq
        · exact hI q (.inr hq)
        · rw [List.mem_singleton.mp hq]
          exact hI _ (.inl hsent)
    | _ => exact hI q hq

/-- Such a message is published and delivered, and its handler ends for none of the reasons for
which one may. -/
theorem lost_of_poison (hm : decodeSubject m = .error ()) : ∃ d l u h, machine.init d ∧
    machine.Trace d l u ∧ u.handlings[0]? = some h ∧ h.message = m ∧ h.phase = .ended false ∧
      ¬ ∃ p ∈ l, Acking 0 p.1 ∨ RecordingFails 0 p.1 p.2 ∨ NotBegun 0 p.1 p.2 := by
  let d : Consumer := ⟨[], [], [], [], []⟩
  let t : Consumer := { d with messages := [m] }
  let u : Consumer := { t with handlings := [⟨.triaged, 0, m, .received⟩] }
  have hdecode : u.step (.decode 0) = some (u.setPhase 0 (.ended false)) := by
    rw [decode_of_received (h := ⟨.triaged, 0, m, .received⟩) rfl rfl, afterDecode, hm]
  have htrace : machine.Trace d [(d, .publish m), (t, .deliver .triaged 0), (u, .decode 0)]
      (u.setPhase 0 (.ended false)) :=
    .snoc (l := [(d, Action.publish m), (t, Action.deliver .triaged 0)])
      (.snoc (l := [(d, Action.publish m)]) (.snoc (l := []) .nil rfl) rfl) hdecode
  refine ⟨d, _, _, ⟨.triaged, 0, m, .ended false⟩, ⟨List.nodup_nil, rfl, rfl, rfl⟩, htrace, rfl,
    rfl, rfl, ?_⟩
  simp [Acking, RecordingFails, NotBegun, d, t, u]

/-! ## The messages that are settled -/

/-- A message is never lost on its consumer. A handler that has ended has called `msg.ack()` or
its transaction has failed, unless the consumer stopped before it began; with a payload that is
not accepted it goes on to `msg.ack()` at once and executes no statement; and in every state the
message may still come to be acknowledged. -/
structure Settles (m : RawMessage) : Prop where
  ended : ∀ (d u : Consumer) (l : List (Consumer × Action)) (i : ℕ) (h : Handling)
    (committed : Bool), machine.init d → machine.Trace d l u → u.handlings[i]? = some h →
    h.message = m → h.phase = .ended committed →
    ∃ p ∈ l, Acking i p.1 ∨ RecordingFails i p.1 p.2 ∨ NotBegun i p.1 p.2
  ignored : JsonParser.loads m.data ≠ .value → ∀ (d u : Consumer) (i : ℕ) (h : Handling),
    machine.init d → machine.Path (fun _ _ => True) d u → u.handlings[i]? = some h →
    h.message = m →
    (h.phase = .received → u.step (.decode i) = some (u.setPhase i (.acking false))) ∧
      (∀ now, u.step (.execute i now) = none) ∧ ∀ raises, u.step (.commit i raises) = none
  acknowledged : ∀ (d u : Consumer) (durable : Durable) (seq : ℕ), machine.init d →
    machine.Path (fun _ _ => True) d u → u.messages[seq]? = some m →
    ∃ v, machine.Path (fun _ _ => True) u v ∧ (durable, seq) ∈ v.acked

theorem settles_of_decode (hm : decodeSubject m ≠ .error ()) : Settles m where
  ended d u l i h committed hd hl hi hmessage hended := by
    refine (ended_of_trace hd hl hi hended).resolve_right ?_
    rw [hmessage]
    exact hm
  ignored hloads d u i h hd hu hi hmessage := by
    subst hmessage
    have hdecode := decodeSubject_of_ne_value hm hloads
    have hphase := ignored_of_path hd hu hi hdecode
    refine ⟨?_, ?_, ?_⟩
    · intro hp
      rw [decode_of_received hi hp, afterDecode, hdecode]
    · intro now
      refine execute_eq_none hi ?_
      intro subject hp
      simp [hp] at hphase
    · intro raises
      refine commit_eq_none hi ?_
      intro row hp
      simp [hp] at hphase
  acknowledged d u durable seq hd hu hmem := acked_of_path hd hu hmem hm

/-- **Which messages are settled.** In every run, of any number of handlers in any interleaving,
a message is never lost on its consumer if and only if its subject is unknown or its payload is
one that `json.loads` accepts or rejects with a `ValueError`. -/
theorem settles_iff (m : RawMessage) :
    Settles m ↔ (m.subject ∈ knownSubjects → JsonParser.loads m.data ≠ .otherError) := by
  constructor
  · intro hm hknown hloads
    obtain ⟨d, l, u, h, hd, hl, hi, hmessage, hended, hnone⟩ :=
      lost_of_poison (decodeSubject_eq_error.mpr ⟨hknown, hloads⟩)
    exact hnone (hm.ended d u l 0 h false hd hl hi hmessage hended)
  · intro hm
    refine settles_of_decode ?_
    rw [Ne, decodeSubject_eq_error, not_and]
    exact hm

end

/-- The parser of an interpreter that nests `limit` calls, on payloads of brackets alone: these
are read one call deeper for each bracket that opens. -/
@[reducible] def bracketParser (limit : ℕ) : JsonParser where
  loads data :=
    let opened := data.takeWhile (· = 0x5B)
    if limit < opened.length then .otherError
    else if opened ≠ [] ∧ data = opened ++ List.replicate opened.length 0x5D then .value
    else .valueError

theorem loads_brackets {limit n : ℕ} (h : limit < n) :
    (bracketParser limit).loads (List.replicate n 0x5B) = .otherError := by
  have hopened : (List.replicate n (0x5B : UInt8)).takeWhile (· = 0x5B) =
      List.replicate n 0x5B := by
    rw [List.takeWhile_replicate, if_pos (by decide)]
  refine if_pos ?_
  rw [hopened, List.length_replicate]
  exact h

/-- A payload of 1001 opening brackets, under a limit of 1000: its handler ends without an
acknowledgement although no transaction has failed, and no run ever acknowledges it. -/
theorem settles_brackets : ∃ (_ : JsonParser) (m : RawMessage),
    m = ⟨subjectReportTriaged, List.replicate 1001 0x5B⟩ ∧ ¬ Settles m ∧
      ∀ d u durable seq, machine.init d → machine.Path (fun _ _ => True) d u →
        u.messages[seq]? = some m → (durable, seq) ∉ u.acked := by
  let _ := bracketParser 1000
  let m : RawMessage := ⟨subjectReportTriaged, List.replicate 1001 0x5B⟩
  have hm : decodeSubject m = .error () :=
    decodeSubject_eq_error.mpr ⟨by decide, loads_brackets (by decide)⟩
  refine ⟨bracketParser 1000, m, rfl, ?_, ?_⟩
  · intro hsettles
    obtain ⟨d, l, u, h, hd, hl, hi, hmessage, hended, hnone⟩ := lost_of_poison hm
    exact hnone (hsettles.ended d u l 0 h false hd hl hi hmessage hended)
  · intro d u durable seq hd hu hmem hacked
    exact not_acked_of_poison hd hu hm (.inr hacked) hmem

end Consumer

end ReportTriage

import Mathlib.Data.List.Nodup
import ReportTriage.Causality

/-!
# Publishing once

The two messages of a report carry fixed ids, and the server ignores a message whose id it has
stored within its duplicate window. Nothing bounds how long a retried attempt waits for a worker,
nor how long an attempt that was given up goes on executing, so a message can come back after the
window. As long as none does, a message is stored once.

## Main definitions

* `System.InDuplicateWindow` — a publication that comes in time to be recognised.
* `System.publishes_once` — what the stream holds of a report as long as all of them do.
-/

namespace ReportTriage

/-- The subject and the report of the message an attempt publishes next. -/
def Attempt.publishing (x : Attempt) : Option (String × String) :=
  match x.activity, x.phase with
  | .publishTriageEvents reportId _ _ _ _ _, .running => some (subjectReportTriaged, reportId)
  | .publishTriageEvents reportId _ _ _ _ _, .triagedPublished _ =>
    some (subjectQueueRouted, reportId)
  | _, _ => none

/-- When the message reached the server, if it did. -/
def System.Delivery.storedAt? : System.Delivery → Option ServerTime
  | acked storedAt | storedUnacked storedAt _ => some storedAt
  | lost _ => none

/-- The attempt has published both messages of report `r`, and has returned. -/
def Attempt.hasPublished (r : String) (x : Attempt) : Bool :=
  match x.activity, x.phase with
  | .publishTriageEvents reportId _ _ _ _ _, .finished (.ok _) => reportId = r
  | _, _ => false

namespace System

/-- A message that reaches the server does so within the duplicate window of every stored message
with its id. -/
def InDuplicateWindow (s : System) : Action → Prop
  | .exec i input => ∀ x ∈ s.attempts[i]?, ∀ p ∈ x.publishing, ∀ t ∈ input.delivery.storedAt?,
    ∀ m ∈ s.stream, m.msgId = msgId p.1 p.2 → t ≤ m.storedAt + duplicateWindow
  | _ => True

instance (s : System) (a : Action) : Decidable (s.InDuplicateWindow a) := by
  unfold InDuplicateWindow
  split <;> infer_instance

/-- The messages of a report on a subject. -/
def messagesOf (s : System) (subject r : String) : List Message :=
  s.stream.filter fun m => m.subject = subject ∧ m.payload.reportId = r

/-! ## What a step stores -/

theorem mem_store_self (s : System) (m : Message) : ∃ m' ∈ s.store m, m'.msgId = m.msgId := by
  simp only [store]
  split
  · rename_i hdup
    obtain ⟨m', hm', hid, -⟩ := hdup
    exact ⟨m', hm', hid⟩
  · exact ⟨m, List.mem_append_right _ (List.mem_singleton_self m), rfl⟩

theorem stream_publish (s : System) (i : ℕ) (subject r : String) (payload : Payload)
    (next : AttemptPhase) (delivery : Delivery) :
    (s.publish i subject r payload next delivery).stream =
      match delivery.storedAt? with
      | some t => s.store ⟨subject, msgId subject r, payload, t⟩
      | none => s.stream := by
  cases delivery <;> rfl

variable [UnicodeData] {s s' : System} {a : Action}

/-- What an attempt that publishes next does to the stream. -/
theorem stream_of_publishing {i : ℕ} {input : Input} {x : Attempt} {subject r : String}
    (hs : s.step (.exec i input) = some s') (hx : s.attempts[i]? = some x)
    (hpub : x.publishing = some (subject, r)) :
    ∃ payload : Payload, payload.reportId = r ∧
      s'.stream = match input.delivery.storedAt? with
        | some t => s.store ⟨subject, msgId subject r, payload, t⟩
        | none => s.stream := by
  simp only [step, exec, hx, Option.bind_eq_bind, Option.bind_some] at hs
  simp only [Attempt.publishing] at hpub
  split at hpub
  · rename_i hact hphase
    cases hpub
    rw [hact, hphase] at hs
    cases hs
    exact ⟨_, rfl, stream_publish ..⟩
  · rename_i hact hphase
    cases hpub
    rw [hact, hphase] at hs
    cases hs
    exact ⟨_, rfl, stream_publish ..⟩
  · cases hpub

/-- No other step touches the stream. -/
theorem stream_of_not_publishing (hs : s.step a = some s')
    (hnot : ∀ i input x, a = .exec i input → s.attempts[i]? = some x → x.publishing = none) :
    s'.stream = s.stream := by
  cases effect_of_step hs with
  | @published i x m next p input hx hm hp =>
    have hnone := hnot i input x rfl hx
    obtain ⟨ρ, activity, phase⟩ := x
    cases hm <;> cases hnone
  | arrived | requestMoved | inserted | reset | started | startFailed | scheduled | runMoved
  | attemptMoved | marked | upserted => rfl

/-! ## At most once -/

omit [UnicodeData] in
/-- Storing keeps the ids apart just when the message comes in time, or is new. -/
theorem nodup_store_iff {m : Message} (h : (s.stream.map Message.msgId).Nodup) :
    ((s.store m).map Message.msgId).Nodup ↔
      ∀ m' ∈ s.stream, m'.msgId = m.msgId → m.storedAt ≤ m'.storedAt + duplicateWindow := by
  simp only [store]
  split
  · rename_i hdup
    obtain ⟨m₀, hm₀, hid₀, hle⟩ := hdup
    refine iff_of_true h fun m' hm' hid => ?_
    rwa [List.inj_on_of_nodup_map h hm' hm₀ (hid.trans hid₀.symm)]
  · rename_i hnew
    push Not at hnew
    rw [List.map_append, List.map_singleton, List.nodup_append]
    refine ⟨fun ⟨_, _, hne⟩ m' hm' hid => ?_, fun hin => ⟨h, List.nodup_singleton _, ?_⟩⟩
    · exact absurd hid (hne _ (List.mem_map_of_mem hm') _ (List.mem_singleton_self _))
    · intro p hp q hq hpq
      obtain ⟨m', hm', rfl⟩ := List.mem_map.mp hp
      rw [List.mem_singleton.mp hq] at hpq
      exact absurd (hin m' hm' hpq) (Nat.not_le_of_lt (hnew m' hm' hpq))

/-- A step keeps the ids of the stream apart just when what it publishes comes in time. -/
theorem nodup_step_iff (h : (s.stream.map Message.msgId).Nodup) (hs : s.step a = some s') :
    (s'.stream.map Message.msgId).Nodup ↔ s.InDuplicateWindow a := by
  by_cases hpub : ∃ i input x p, a = .exec i input ∧ s.attempts[i]? = some x ∧
      x.publishing = some p
  · obtain ⟨i, input, x, ⟨subject, r⟩, rfl, hx, hp⟩ := hpub
    obtain ⟨payload, -, hstream⟩ := stream_of_publishing hs hx hp
    simp only [InDuplicateWindow, hx, hp, Option.mem_some_iff, forall_eq']
    cases hd : input.delivery.storedAt? with
    | none => simpa [hstream, hd] using h
    | some t =>
      rw [hstream, hd, nodup_store_iff h]
      simp
  · have hnot : ∀ i input x, a = .exec i input → s.attempts[i]? = some x →
        x.publishing = none := by
      intro i input x ha hx
      by_contra hne
      obtain ⟨p, hp⟩ := Option.ne_none_iff_exists'.mp hne
      exact hpub ⟨i, input, x, p, ha, hx, hp⟩
    rw [stream_of_not_publishing hs hnot]
    refine iff_of_true h ?_
    simp only [InDuplicateWindow]
    split
    · rename_i i input
      intro x hx p hp
      rw [hnot i input x rfl hx] at hp
      cases hp
    · trivial

theorem nodup_of_along (h : machine.Along InDuplicateWindow s) :
    (s.stream.map Message.msgId).Nodup :=
  h.invariant (I := fun s => (s.stream.map Message.msgId).Nodup)
    (fun h0 => by subst h0; exact List.nodup_nil)
    fun _ hI hok hs => (nodup_step_iff hI hs).mpr hok

/-! ## The messages of a report -/

theorem msgId_eq_iff {m m' : Message} (hm : m.Justified s) (hm' : m'.Justified s) :
    m.msgId = m'.msgId ↔ m.subject = m'.subject ∧ m.payload.reportId = m'.payload.reportId := by
  obtain ⟨hid, -, -, hp⟩ := hm
  obtain ⟨hid', -, -, hp'⟩ := hm'
  rw [hid, hid']
  refine ⟨?_, fun h => by rw [h.1, h.2]⟩
  intro h
  cases hpm : m.payload <;> cases hpm' : m'.payload <;> simp only [hpm, hpm'] at hp hp' h ⊢ <;>
    rw [hp.1, hp'.1] at h ⊢
  · exact ⟨rfl, msgId_inj.mp h⟩
  · exact absurd h.symm msgId_ne
  · exact absurd h msgId_ne
  · exact ⟨rfl, msgId_inj.mp h⟩

/-- The stream holds at most one message of each kind for each report. -/
def Once (s : System) : Prop :=
  ∀ r, (s.messagesOf subjectReportTriaged r).length ≤ 1 ∧
    (s.messagesOf subjectQueueRouted r).length ≤ 1

theorem once_iff (h : Causal s) : s.Once ↔ (s.stream.map Message.msgId).Nodup := by
  have hfilter : ∀ m ∈ s.stream, (s.stream.map Message.msgId).count m.msgId =
      (s.messagesOf m.subject m.payload.reportId).length := by
    intro m hm
    rw [messagesOf, List.count, List.countP_map, List.countP_eq_length_filter]
    congr 1
    refine List.filter_congr fun m' hm' => ?_
    rw [Bool.eq_iff_iff]
    simpa using msgId_eq_iff (h.messages m' hm') (h.messages m hm)
  refine ⟨fun honce => List.nodup_iff_count_le_one.mpr fun id => ?_, fun hnodup r => ?_⟩
  · by_cases hmem : id ∈ s.stream.map Message.msgId
    · obtain ⟨m, hm, rfl⟩ := List.mem_map.mp hmem
      rw [hfilter m hm]
      obtain ⟨-, -, -, hp⟩ := h.messages m hm
      cases hpm : m.payload <;> simp only [hpm] at hp <;> rw [hp.1]
      · exact (honce _).1
      · exact (honce _).2
    · rw [List.count_eq_zero_of_not_mem hmem]
      exact Nat.zero_le 1
  · have hle : ∀ subject, (s.messagesOf subject r).length ≤ 1 := by
      intro subject
      rcases hlist : s.messagesOf subject r with _ | ⟨m, rest⟩
      · exact Nat.zero_le 1
      · have hmem : m ∈ s.messagesOf subject r := by rw [hlist]; exact List.mem_cons_self
        obtain ⟨hm, hmr⟩ := List.mem_filter.mp hmem
        obtain ⟨rfl, rfl⟩ := of_decide_eq_true hmr
        rw [← hlist, ← hfilter m hm]
        exact List.nodup_iff_count_le_one.mp hnodup _
    exact ⟨hle _, hle _⟩

/-- An attempt to publish that has returned has left both messages. -/
theorem queueRouted_stored (h : machine.Reachable s) : ∀ (i : ℕ) (x : Attempt) (v : Value),
    s.attempts[i]? = some x → x.phase = .finished (.ok v) → ∀ r c p rr conf qn,
    x.activity = .publishTriageEvents r c p rr conf qn →
    ∃ m ∈ s.stream, m.msgId = msgId subjectQueueRouted r := by
  refine h.invariant (I := fun s => ∀ (i : ℕ) (x : Attempt) (v : Value),
    s.attempts[i]? = some x → x.phase = .finished (.ok v) → ∀ r c p rr conf qn,
    x.activity = .publishTriageEvents r c p rr conf qn →
    ∃ m ∈ s.stream, m.msgId = msgId subjectQueueRouted r)
    (fun h0 => by subst h0; simp [empty])
    fun {t a u} _ ih hs i y v hy hp r c p rr conf qn hact => ?_
  have he := effect_of_step hs
  rcases he.attempt hy with hold | ⟨-, ρ, run, call, -, -, -, -, rfl⟩ | ⟨x, q, hx, rfl, hstep⟩
  · obtain ⟨m, hm, hid⟩ := ih i y v hold hp r c p rr conf qn hact
    exact ⟨m, he.stream_mono.subset hm, hid⟩
  · cases hp
  · obtain ⟨ρ, activity, phase⟩ := x
    obtain rfl : q = .finished (.ok v) := hp
    obtain rfl : activity = _ := hact
    generalize hq : AttemptPhase.finished (.ok v) = q at hstep
    cases hstep with
    | moved hm => cases hm <;> cases hq
    | marked _ _ hw => cases hw
    | upserted hc => cases hc
    | published hm hnext hstream =>
      rcases hnext with rfl | ⟨e, rfl⟩
      · rw [hstream]
        cases hm <;> cases hq
        exact mem_store_self _ _
      · cases hq

theorem stored_of_published (h : machine.Reachable s) {i : ℕ} {x : Attempt} {r : String}
    (hx : s.attempts[i]? = some x) (hpublished : x.hasPublished r = true) :
    0 < (s.messagesOf subjectReportTriaged r).length ∧
      0 < (s.messagesOf subjectQueueRouted r).length := by
  have hcausal := causal_of_reachable h
  obtain ⟨m, hm, hid⟩ : ∃ m ∈ s.stream, m.msgId = msgId subjectQueueRouted r := by
    simp only [Attempt.hasPublished] at hpublished
    split at hpublished
    · rename_i hact hphase
      obtain rfl := of_decide_eq_true hpublished
      exact queueRouted_stored h i x _ hx hphase _ _ _ _ _ _ hact
    · cases hpublished
  obtain ⟨hid', -, -, hpayload⟩ := hcausal.messages m hm
  rw [hid'] at hid
  cases hpm : m.payload with
  | triaged e =>
    simp only [hpm] at hpayload hid
    rw [hpayload.1] at hid
    exact absurd hid.symm msgId_ne
  | queueRouted e =>
    simp only [hpm] at hpayload hid
    rw [hpayload.1] at hid
    obtain rfl : e.reportId = r := msgId_inj.mp hid
    obtain ⟨j, hj⟩ := List.getElem?_of_mem hm
    obtain ⟨m', hm', e', hpm', hr⟩ := hcausal.order j m e hj hpm
    have hmem' := (List.take_subset _ _) hm'
    obtain ⟨-, -, -, hpayload'⟩ := hcausal.messages m' hmem'
    simp only [hpm'] at hpayload'
    refine ⟨List.length_pos_of_mem (List.mem_filter.mpr ⟨hmem', ?_⟩),
      List.length_pos_of_mem (List.mem_filter.mpr ⟨hm, ?_⟩)⟩
    · simp [hpayload'.1, hpm', Payload.reportId, hr]
    · simp [hpayload.1, hpm, Payload.reportId]

/-- **A report is published once while its messages come in time.** If every message that has
reached the server came within the duplicate window of the one stored under its id, the stream
holds at most one message of each kind for a report, and one of each once an attempt to publish
them has returned. And only so: the next step keeps it that way just when what it publishes
comes in time too. -/
theorem publishes_once (h : machine.Along InDuplicateWindow s) :
    s.Once ∧
    (∀ x ∈ s.attempts, ∀ r, x.hasPublished r = true →
      (s.messagesOf subjectReportTriaged r).length = 1 ∧
        (s.messagesOf subjectQueueRouted r).length = 1) ∧
    ∀ a s', s.step a = some s' → (s'.Once ↔ s.InDuplicateWindow a) := by
  have hnodup := nodup_of_along h
  have honce := (once_iff (causal_of_reachable h.reachable)).mpr hnodup
  refine ⟨honce, ?_, ?_⟩
  · intro x hx r hpublished
    obtain ⟨i, hi⟩ := List.getElem?_of_mem hx
    obtain ⟨ht, hq⟩ := stored_of_published h.reachable hi hpublished
    exact ⟨Nat.le_antisymm (honce r).1 ht, Nat.le_antisymm (honce r).2 hq⟩
  · intro a s' hs
    have hp : machine.Path (fun _ _ => True) s s' := .single trivial hs
    have hs' := h.reachable.path hp
    rw [once_iff (causal_of_reachable hs'), nodup_step_iff hnodup hs]

/-- One run of one report: the first attempt to publish stores `report.triaged` and loses the
connection, both within a second. The second attempt has waited for a worker until `later`. -/
def retriedPublish (later : Time) : List Action :=
  let retry : Input := ⟨later, "", none, .acked later.val, ""⟩
  Sample.create 0 "r" ++ Sample.activity 0 0 1 ++ Sample.activity 0 1 2 ++ Sample.activity 0 2 1 ++
    Sample.activity 0 3 1 ++ Sample.activity 0 4 1 ++ Sample.activity 0 5 4 ++
    Sample.activity 0 6 4 ++
  [.schedule 0, .exec 7 (Sample.input 2),
    .exec 7 ⟨2, "", none, .lost ⟨"ConnectionClosedError", "", false⟩, ""⟩, .complete 0,
    .schedule 0, .exec 8 retry, .exec 8 retry, .complete 0] ++ Sample.activity 0 9 2

omit [UnicodeData] in
/-- A retry after twenty seconds finds its message stored. -/
theorem publishes_once_retried : ∃ (_ : UnicodeData) (s : System),
    machine.Along InDuplicateWindow s ∧ s.runs.length = 1 ∧
      (s.attempts.filter fun x => x.hasPublished "r").length = 1 ∧
      (s.messagesOf subjectReportTriaged "r").length = 1 ∧
      (s.messagesOf subjectQueueRouted "r").length = 1 := by
  let _ := asciiUnicode
  have hrun : ((machine.runIf InDuplicateWindow empty
      (retriedPublish (20 * 1000000 + 2))).any fun s =>
      s.runs.length = 1 && (s.attempts.filter fun x => x.hasPublished "r").length = 1) = true := by
    decide +kernel
  obtain ⟨s, hs, hp⟩ := Machine.Along.exists_of_runIf rfl hrun
  simp only [Bool.and_eq_true, decide_eq_true_eq] at hp
  have hpos : 0 < (s.attempts.filter fun x => x.hasPublished "r").length := by omega
  obtain ⟨x, hx⟩ := List.exists_mem_of_length_pos hpos
  obtain ⟨hmem, hpublished⟩ := List.mem_filter.mp hx
  exact ⟨_, s, hs, hp.1, hp.2, (publishes_once hs).2.1 x hmem "r" hpublished⟩

omit [UnicodeData] in
/-- A retry after one hundred and twenty-one seconds stores its message a second time, and the
run goes on as if nothing had happened. -/
theorem published_twice : ∃ (_ : UnicodeData) (s : System),
    machine.run empty (retriedPublish (121 * 1000000 + 2)) = some s ∧
      s.requests.length = 1 ∧ s.runs.length = 1 ∧ s.status "r" = some "classified" ∧
      (s.attempts.filter fun x => x.hasPublished "r").length = 1 ∧
      (s.messagesOf subjectReportTriaged "r").length = 2 := by
  let _ := asciiUnicode
  have hrun : ((machine.run empty (retriedPublish (121 * 1000000 + 2))).any fun s =>
      s.requests.length = 1 ∧ s.runs.length = 1 ∧ s.status "r" = some "classified" ∧
      (s.attempts.filter fun x => x.hasPublished "r").length = 1 ∧
      (s.messagesOf subjectReportTriaged "r").length = 2) = true := by decide +kernel
  obtain ⟨s, hs, hp⟩ := (Option.any_eq_true _ _).mp hrun
  exact ⟨_, s, hs, of_decide_eq_true hp⟩

end System

end ReportTriage

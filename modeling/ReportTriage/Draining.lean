import ReportTriage.Causality
import ReportTriage.Lib.UpsertAlone

/-!
# Coming to rest

Every open transaction is that of one attempt, which is executing, and an attempt that executes
an upsert holds an open transaction. So when the processes that serve the requests and execute
the attempts go away, in whatever state, nothing is left that a later statement waits for; and
no row changes by their going.

## Main definitions

* `System.Owned`, `System.owned_of_reachable` — the transactions and their attempts.
* `System.Halts`, `System.Halted`, `System.exists_halted` — the processes go away.
-/

namespace ReportTriage

namespace Upserts

/-- A transaction of the two tables: its table and its number there. -/
abbrev Slot := ℕ ⊕ ℕ

def Action.slot (u : Upserts) : Action → Slot
  | .classification b => .inl (b.txn u.classifications)
  | .queueItem b => .inr (b.txn u.queueItems)

/-- The transaction is begun and not over. -/
def IsOpen (u : Upserts) : Slot → Prop
  | .inl t => u.classifications.IsOpen t
  | .inr t => u.queueItems.IsOpen t

/-- No transaction is open. -/
def Idle (u : Upserts) : Prop := ∀ p, ¬ u.IsOpen p

end Upserts

/-- Transaction `t` of the table of a call. -/
def UpsertCall.slot (t : ℕ) : UpsertCall → Upserts.Slot
  | classification _ => .inl t
  | queueItem _ => .inr t

namespace Upserts

variable {u v : Upserts} {a : Action} {call : UpsertCall} {t : ℕ}

@[simp] theorem slot_begin : call.begin.slot u = call.slot (u.nextTxn call) := by
  cases call <;> rfl

@[simp] theorem slot_advance {newId : String} {now : Time} :
    (call.advance t newId now).slot u = call.slot t := by
  cases call <;> rfl

@[simp] theorem slot_fail : (call.fail t).slot u = call.slot t := by
  cases call <;> rfl

/-- A statement opens or ends no transaction but its own. -/
theorem isOpen_step (hs : u.step a = some v) {p : Slot} (hp : p ≠ a.slot u) :
    v.IsOpen p ↔ u.IsOpen p := by
  cases a with
  | classification b =>
    obtain ⟨hT, hq⟩ := step_classification hs
    rcases p with t | t
    · exact (Upsert.effect_of_step hT).isOpen_iff fun h => hp (congrArg Sum.inl h)
    · simp only [IsOpen, hq]
  | queueItem b =>
    obtain ⟨hT, hc⟩ := step_queueItem hs
    rcases p with t | t
    · simp only [IsOpen, hc]
    · exact (Upsert.effect_of_step hT).isOpen_iff fun h => hp (congrArg Sum.inr h)

theorem isOpen_slot_iff (h : u.HasTxn t call) : u.IsOpen (call.slot t) ↔ u.ended t call = none := by
  cases call with
  | classification args =>
    obtain ⟨x, hx, -⟩ := h
    rw [UpsertCall.slot, IsOpen, Upsert.Table.isOpen_iff hx, ended, hx]
    rfl
  | queueItem args =>
    obtain ⟨x, hx, -⟩ := h
    rw [UpsertCall.slot, IsOpen, Upsert.Table.isOpen_iff hx, ended, hx]
    rfl

/-- The next transaction of a table is not open before it is begun. -/
theorem not_isOpen_nextTxn : ¬ u.IsOpen (call.slot (u.nextTxn call)) := by
  cases call <;> exact fun h => (Nat.lt_irrefl _ h.lt).elim

theorem isOpen_begin (hs : u.step call.begin = some v) :
    v.IsOpen (call.slot (u.nextTxn call)) := by
  cases call with
  | classification args => exact ⟨_, Upsert.begun_of_step (step_classification hs).1, rfl⟩
  | queueItem args => exact ⟨_, Upsert.begun_of_step (step_queueItem hs).1, rfl⟩

/-- An open call can fail. -/
theorem exists_fail (h : u.IsOpen (call.slot t)) : ∃ v, u.step (call.fail t) = some v := by
  cases call with
  | classification args =>
    obtain ⟨T, hT⟩ := Upsert.exists_fail (S := upsertClassification) h
    exact ⟨_, congrArg (Option.map _) hT⟩
  | queueItem args =>
    obtain ⟨T, hT⟩ := Upsert.exists_fail (S := upsertQueueItem) h
    exact ⟨_, congrArg (Option.map _) hT⟩

theorem eq_of_fail (hs : u.step (call.fail t) = some v) : ¬ v.IsOpen (call.slot t) ∧
    v.classifications.rows = u.classifications.rows ∧ v.queueItems.rows = u.queueItems.rows := by
  cases call with
  | classification args =>
    obtain ⟨hT, hq⟩ := step_classification hs
    obtain ⟨hended, hrows⟩ := Upsert.eq_of_fail hT
    exact ⟨hended, hrows, by rw [hq]⟩
  | queueItem args =>
    obtain ⟨hT, hc⟩ := step_queueItem hs
    obtain ⟨hended, hrows⟩ := Upsert.eq_of_fail hT
    exact ⟨hended, by rw [hc], hrows⟩

end Upserts

/-! ## Transactions and their attempts -/

/-- The attempt is at a statement of the transaction. -/
def Attempt.Executes (x : Attempt) (p : Upserts.Slot) : Prop :=
  ∃ t call v, x.phase = .upserting t ∧ x.activity.upsertCall = some (call, v) ∧ call.slot t = p

theorem Attempt.executes_iff {x : Attempt} {t : ℕ} {call : UpsertCall} {v : Value}
    {p : Upserts.Slot} (hp : x.phase = .upserting t) (hc : x.activity.upsertCall = some (call, v)) :
    x.Executes p ↔ p = call.slot t := by
  constructor
  · rintro ⟨t', call', v', hp', hc', rfl⟩
    rw [hp] at hp'
    rw [hc] at hc'
    cases hp'
    cases hc'
    rfl
  · rintro rfl
    exact ⟨t, call, v, hp, hc, rfl⟩

namespace System

/-- Attempt number `i` is at a statement of the transaction. -/
def Owns (s : System) (i : ℕ) (p : Upserts.Slot) : Prop :=
  ∃ x, s.attempts[i]? = some x ∧ x.Executes p

variable {s s' : System} {i j t : ℕ} {x : Attempt} {p : AttemptPhase} {q : Upserts.Slot}
  {call : UpsertCall} {v : Value}

theorem owns_setPhase_self (hx : s.attempts[i]? = some x) :
    (s.setPhase i p).Owns i q ↔ ({ x with phase := p } : Attempt).Executes q := by
  constructor
  · rintro ⟨y, hy, h⟩
    rcases setPhase_cases hx hy with ⟨-, rfl⟩ | ⟨hne, -⟩
    · exact h
    · exact (hne rfl).elim
  · intro h
    exact ⟨_, Slots.modify_self hx, h⟩

theorem owns_setPhase_of_ne (hne : j ≠ i) : (s.setPhase i p).Owns j q ↔ s.Owns j q := by
  unfold Owns
  rw [setPhase, Slots.modify_of_ne hne]

/-- An activity that upserts nothing owns nothing. -/
theorem owns_setPhase_of_none (hx : s.attempts[i]? = some x)
    (hnone : x.activity.upsertCall = none) : (s.setPhase i p).Owns j q ↔ s.Owns j q := by
  by_cases hj : j = i
  · subst hj
    rw [owns_setPhase_self hx]
    constructor
    · rintro ⟨t, call, v, -, hc, -⟩
      rw [hnone] at hc
      cases hc
    · rintro ⟨y, hy, t, call, v, -, hc, -⟩
      rw [hx] at hy
      cases hy
      rw [hnone] at hc
      cases hc
  · exact owns_setPhase_of_ne hj

theorem owns_upserting_self (hx : s.attempts[i]? = some x)
    (hc : x.activity.upsertCall = some (call, v)) :
    (s.setPhase i (.upserting t)).Owns i q ↔ q = call.slot t := by
  have hc' : ({ x with phase := .upserting t } : Attempt).activity.upsertCall = some (call, v) := hc
  rw [owns_setPhase_self hx, Attempt.executes_iff rfl hc']

theorem owns_iff (hx : s.attempts[i]? = some x) (hp : x.phase = .upserting t)
    (hc : x.activity.upsertCall = some (call, v)) : s.Owns i q ↔ q = call.slot t := by
  rw [← Attempt.executes_iff hp hc]
  constructor
  · rintro ⟨y, hy, h⟩
    rw [hx] at hy
    cases hy
    exact h
  · intro h
    exact ⟨x, hx, h⟩

theorem not_owns (hx : s.attempts[i]? = some x) (hp : ∀ t, x.phase ≠ .upserting t) :
    ¬ s.Owns i q := by
  rintro ⟨y, hy, t, call, v, hpt, -⟩
  rw [hx] at hy
  cases hy
  exact hp t hpt

theorem owns_unique {q' : Upserts.Slot} (h : s.Owns i q) (h' : s.Owns i q') : q = q' := by
  obtain ⟨x, hx, t, call, v, hp, hc, rfl⟩ := h
  exact ((owns_iff hx hp hc).mp h').symm

section
variable [UnicodeData]

/-- The statement an attempt at an upsert executes. -/
theorem exec_eq_upsertThenReturn (hx : s.attempts[i]? = some x)
    (hc : x.activity.upsertCall = some (call, v)) (input : Input) :
    s.exec i input = s.upsertThenReturn i call v input x.phase := by
  obtain ⟨ρ, activity, phase⟩ := x
  simp only [exec, hx, Option.bind_eq_bind, Option.bind_some]
  cases activity <;> cases hc <;> rfl

/-- How a step changes the open transactions, and the attempts that own them. -/
inductive OwnersStep (s s' : System) : Prop
  | same (hu : s'.upserts = s.upserts) (howns : ∀ j q, s'.Owns j q ↔ s.Owns j q)
  | begun (i : ℕ) (call : UpsertCall) (hu : s.upserts.step call.begin = some s'.upserts)
      (howns : ∀ j q, s'.Owns j q ↔ s.Owns j q ∨ j = i ∧ q = call.slot (s.upserts.nextTxn call))
  | advanced (i : ℕ) (b : Upserts.Action) (hi : s.Owns i (b.slot s.upserts))
      (hu : s.upserts.step b = some s'.upserts) (hopen : s'.upserts.IsOpen (b.slot s.upserts))
      (howns : ∀ j q, s'.Owns j q ↔ s.Owns j q)
  | ended (i : ℕ) (b : Upserts.Action) (hi : s.Owns i (b.slot s.upserts))
      (hu : s.upserts.step b = some s'.upserts) (hended : ¬ s'.upserts.IsOpen (b.slot s.upserts))
      (howns : ∀ j q, s'.Owns j q ↔ s.Owns j q ∧ j ≠ i)

omit [UnicodeData] in
/-- The attempt that owned a transaction goes on to a phase that owns none. -/
theorem owns_of_ended (hx : s.attempts[i]? = some x) (hp : ∀ t, p ≠ .upserting t) (j : ℕ)
    (q : Upserts.Slot) : (s.setPhase i p).Owns j q ↔ s.Owns j q ∧ j ≠ i := by
  by_cases hj : j = i
  · subst hj
    exact iff_of_false (not_owns (Slots.modify_self hx) hp) fun h => h.2 rfl
  · rw [owns_setPhase_of_ne hj]
    exact (and_iff_left hj).symm

theorem ownersStep_of_upsertThenReturn (h : Causal s) (hx : s.attempts[i]? = some x)
    (hc : x.activity.upsertCall = some (call, v)) {input : Input}
    (hs : s.upsertThenReturn i call v input x.phase = some s') : OwnersStep s s' := by
  cases hp : x.phase with
  | running =>
    rw [hp, upsertThenReturn] at hs
    obtain ⟨u, hu, rfl⟩ := Option.map_eq_some_iff.mp hs
    refine .begun i call hu fun j q => ?_
    change (s.setPhase i _).Owns j q ↔ _
    by_cases hj : j = i
    · subst hj
      rw [owns_upserting_self hx hc]
      exact ⟨fun h => .inr ⟨rfl, h⟩,
        fun h => h.elim (fun h => (not_owns hx (by simp [hp]) h).elim) And.right⟩
    · rw [owns_setPhase_of_ne hj]
      exact ⟨.inl, fun h => h.resolve_right fun h => hj h.1⟩
  | upserting t =>
    rw [hp, upsertThenReturn] at hs
    obtain ⟨u, hu, rfl⟩ := Option.map_eq_some_iff.mp hs
    have hi : s.Owns i ((call.advance t input.newId input.now).slot s.upserts) := by
      rw [Upserts.slot_advance, owns_iff hx hp hc]
    have hiff := Upserts.isOpen_slot_iff ((h.txn i x t hx hp call v hc).step hu)
    by_cases hended : u.ended t call = none
    · refine .advanced i _ hi hu (by rw [Upserts.slot_advance]; exact hiff.mpr hended) fun j q => ?_
      rw [hended]
      change (s.setPhase i (.upserting t)).Owns j q ↔ _
      by_cases hj : j = i
      · subst hj
        rw [owns_upserting_self hx hc, owns_iff hx hp hc]
      · exact owns_setPhase_of_ne hj
    · refine .ended i _ hi hu (by rw [Upserts.slot_advance, hiff]; exact hended) ?_
      refine owns_of_ended hx fun t' => ?_
      split
      · rename_i hnone
        exact (hended hnone).elim
      · split <;> exact fun h => by cases h
      · exact fun h => by cases h
      · exact fun h => by cases h
  | loaded | triagedPublished | finished =>
    rw [hp] at hs
    cases hs

omit [UnicodeData] in
theorem ownersStep_of_failAttempt {e : Failure} (hs : s.failAttempt i e = some s') :
    OwnersStep s s' := by
  obtain ⟨x, hx, hs⟩ := Option.bind_eq_some_iff.mp hs
  split at hs
  · cases hs
  · rename_i t call v hp hc
    obtain ⟨u, hu, rfl⟩ := Option.map_eq_some_iff.mp hs
    refine .ended i _ ?_ hu ?_ (owns_of_ended hx nofun)
    · rw [Upserts.slot_fail, owns_iff hx hp hc]
    · rw [Upserts.slot_fail]
      exact (Upserts.eq_of_fail hu).1
  · rename_i hfinished hother
    cases hs
    refine .same rfl fun j q => ?_
    rw [owns_of_ended (p := .finished (.error e)) hx nofun, and_iff_left_iff_imp]
    rintro ⟨y, hy, t, call, v, hp, hc, -⟩ rfl
    rw [hx] at hy
    cases hy
    exact hother t call v hp hc

theorem ownersStep_of_exec (h : Causal s) {input : Input} (hs : s.exec i input = some s') :
    OwnersStep s s' := by
  have hattempt : ∃ x, s.attempts[i]? = some x := by
    obtain ⟨x, hx, -⟩ := Option.bind_eq_some_iff.mp hs
    exact ⟨x, hx⟩
  obtain ⟨x, hx⟩ := hattempt
  cases hc : x.activity.upsertCall with
  | some p =>
    rw [exec_eq_upsertThenReturn hx hc input] at hs
    exact ownersStep_of_upsertThenReturn h hx hc hs
  | none =>
    -- The other activities begin no transaction and execute none.
    cases effect_of_exec hs with
    | @attemptMoved _ j y p hy hm =>
      obtain ⟨ρ, activity, phase⟩ := y
      obtain rfl : j = i := by cases hm <;> rfl
      rw [hx] at hy
      cases hy
      exact .same rfl fun j q => owns_setPhase_of_none hx hc
    | marked _ hy | published _ hy =>
      rw [hx] at hy
      cases hy
      exact .same rfl fun j q => owns_setPhase_of_none hx hc
    | upserted ha hy hc' =>
      obtain ⟨input', ha⟩ := ha.resolve_right (by simp)
      cases ha
      rw [hx] at hy
      cases hy
      rw [hc] at hc'
      cases hc'
    | requestMoved _ hm => nomatch hm
    | runMoved _ _ hm => nomatch hm

theorem ownersStep_of_step {a : Action} (h : Causal s) (hs : s.step a = some s') :
    OwnersStep s s' := by
  cases effect_of_step hs with
  | scheduled =>
    refine .same rfl fun j q => ?_
    constructor
    · rintro ⟨y, hy, howns⟩
      rcases Slots.append_cases hy with hold | ⟨-, rfl⟩
      · exact ⟨y, hold, howns⟩
      · obtain ⟨t, call, v, hp, -⟩ := howns
        cases hp
    · rintro ⟨y, hy, howns⟩
      exact ⟨y, Slots.append_of_some hy, howns⟩
  | @attemptMoved _ i y p hy hm =>
    obtain ⟨ρ, activity, phase⟩ := y
    cases hm with
    | failed => exact ownersStep_of_failAttempt hs
    | loaded | selected | classified | scored | decided | raised => exact ownersStep_of_exec h hs
  | marked | published => exact ownersStep_of_exec h hs
  | upserted ha =>
    rcases ha with ⟨input, rfl⟩ | ⟨e, rfl⟩
    · exact ownersStep_of_exec h hs
    · exact ownersStep_of_failAttempt hs
  | arrived | requestMoved | inserted | reset | started | startFailed | runMoved =>
    exact .same rfl fun _ _ => Iff.rfl

/-! ## The invariant -/

/-- An attempt at a statement of a transaction holds it open, and every open transaction is that
of one attempt. -/
structure Owned (s : System) : Prop where
  isOpen : ∀ i q, s.Owns i q → s.upserts.IsOpen q
  apart : ∀ i j q, s.Owns i q → s.Owns j q → i = j
  owner : ∀ q, s.upserts.IsOpen q → ∃ i, s.Owns i q

omit [UnicodeData] in
theorem owned_empty : Owned empty where
  isOpen := by simp [Owns, empty]
  apart := by simp [Owns, empty]
  owner q h := by
    rcases q with t | t <;> obtain ⟨x, hx, -⟩ := h <;> simp [empty, Upserts.empty] at hx

omit [UnicodeData] in
theorem Owned.step (h : Owned s) (hs : OwnersStep s s') : Owned s' := by
  cases hs with
  | same hu howns =>
    refine ⟨fun i q hi => ?_, fun i j q hi hj => ?_, fun q hq => ?_⟩
    · exact hu ▸ h.isOpen i q ((howns i q).mp hi)
    · exact h.apart i j q ((howns i q).mp hi) ((howns j q).mp hj)
    · obtain ⟨i, hi⟩ := h.owner q (hu ▸ hq)
      exact ⟨i, (howns i q).mpr hi⟩
  | begun i call hu howns =>
    -- Nobody can own the new transaction yet.
    have hnew : ∀ j, ¬ s.Owns j (call.slot (s.upserts.nextTxn call)) := fun j hj =>
      Upserts.not_isOpen_nextTxn (h.isOpen j _ hj)
    have hkept : ∀ {q}, q ≠ call.slot (s.upserts.nextTxn call) →
        (s'.upserts.IsOpen q ↔ s.upserts.IsOpen q) := fun hq =>
      Upserts.isOpen_step hu (by rwa [Upserts.slot_begin])
    refine ⟨fun j q hj => ?_, fun j k q hj hk => ?_, fun q hq => ?_⟩
    · rcases (howns j q).mp hj with hold | ⟨-, rfl⟩
      · exact (hkept (by rintro rfl; exact hnew j hold)).mpr (h.isOpen j q hold)
      · exact Upserts.isOpen_begin hu
    · rcases (howns j q).mp hj with hold | ⟨rfl, rfl⟩ <;>
        rcases (howns k _).mp hk with hold' | ⟨rfl, hq⟩
      · exact h.apart j k q hold hold'
      · exact (hnew j (hq ▸ hold)).elim
      · exact (hnew k hold').elim
      · rfl
    · by_cases hnext : q = call.slot (s.upserts.nextTxn call)
      · exact ⟨i, (howns i q).mpr (.inr ⟨rfl, hnext⟩)⟩
      · obtain ⟨j, hj⟩ := h.owner q ((hkept hnext).mp hq)
        exact ⟨j, (howns j q).mpr (.inl hj)⟩
  | advanced i b hi hu hopen howns =>
    refine ⟨fun j q hj => ?_, fun j k q hj hk => ?_, fun q hq => ?_⟩
    · by_cases hb : q = b.slot s.upserts
      · exact hb ▸ hopen
      · exact (Upserts.isOpen_step hu hb).mpr (h.isOpen j q ((howns j q).mp hj))
    · exact h.apart j k q ((howns j q).mp hj) ((howns k q).mp hk)
    · by_cases hb : q = b.slot s.upserts
      · exact ⟨i, (howns i q).mpr (hb ▸ hi)⟩
      · obtain ⟨j, hj⟩ := h.owner q ((Upserts.isOpen_step hu hb).mp hq)
        exact ⟨j, (howns j q).mpr hj⟩
  | ended i b hi hu hended howns =>
    refine ⟨fun j q hj => ?_, fun j k q hj hk => ?_, fun q hq => ?_⟩
    · obtain ⟨hold, hne⟩ := (howns j q).mp hj
      by_cases hb : q = b.slot s.upserts
      · exact (hne (h.apart j i q hold (hb ▸ hi))).elim
      · exact (Upserts.isOpen_step hu hb).mpr (h.isOpen j q hold)
    · exact h.apart j k q ((howns j q).mp hj).1 ((howns k q).mp hk).1
    · have hb : q ≠ b.slot s.upserts := by
        rintro rfl
        exact hended hq
      obtain ⟨j, hj⟩ := h.owner q ((Upserts.isOpen_step hu hb).mp hq)
      refine ⟨j, (howns j q).mpr ⟨hj, ?_⟩⟩
      -- The attempt that ended its transaction owned no other.
      rintro rfl
      exact hb (owns_unique hj hi)

theorem owned_of_reachable (h : machine.Reachable s) : Owned s :=
  h.invariant (fun h0 => h0 ▸ owned_empty)
    fun hr hI hstep => hI.step (ownersStep_of_step (causal_of_reachable hr) hstep)

/-! ## The processes go away -/

omit [UnicodeData] in
/-- The action takes a request or an attempt away from its process. -/
def Halts (_ : System) : Action → Prop
  | .stop _ | .failAttempt _ _ => True
  | _ => False

omit [UnicodeData] in
/-- No request is being served and no attempt is executing. -/
structure Halted (s : System) : Prop where
  requests : ∀ r ∈ s.requests, r.pc.isEnded = true
  attempts : ∀ x ∈ s.attempts, x.isFinished = true

omit [UnicodeData] in
/-- The same rows, messages and runs are stored. -/
structure SameStores (s s' : System) : Prop where
  reports : s'.reports = s.reports
  classifications : s'.upserts.classifications.rows = s.upserts.classifications.rows
  queueItems : s'.upserts.queueItems.rows = s.upserts.queueItems.rows
  stream : s'.stream = s.stream
  runs : s'.runs = s.runs

omit [UnicodeData] in
theorem SameStores.trans {s'' : System} (h : SameStores s s') (h' : SameStores s' s'') :
    SameStores s s'' :=
  ⟨h'.reports.trans h.reports, h'.classifications.trans h.classifications,
    h'.queueItems.trans h.queueItems, h'.stream.trans h.stream, h'.runs.trans h.runs⟩

theorem sameStores_of_halts {a : Action} (hok : s.Halts a) (hs : s.step a = some s') :
    SameStores s s' := by
  cases a with
  | stop q =>
    cases effect_of_step hs with
    | requestMoved => exact ⟨rfl, rfl, rfl, rfl, rfl⟩
    | attemptMoved _ hm => nomatch hm
    | runMoved _ _ hm => nomatch hm
    | upserted ha => simp at ha
  | failAttempt i e =>
    obtain ⟨x, hx, hs⟩ := Option.bind_eq_some_iff.mp hs
    split at hs
    · cases hs
    · obtain ⟨u, hu, rfl⟩ := Option.map_eq_some_iff.mp hs
      obtain ⟨-, hclassifications, hqueueItems⟩ := Upserts.eq_of_fail hu
      exact ⟨rfl, hclassifications, hqueueItems, rfl, rfl⟩
    · cases hs
      exact ⟨rfl, rfl, rfl, rfl, rfl⟩
  | _ => exact hok.elim

theorem sameStores_of_path (hp : machine.Path Halts s s') : SameStores s s' :=
  hp.relation (fun _ => ⟨rfl, rfl, rfl, rfl, rfl⟩) SameStores.trans
    fun _ hok hs => sameStores_of_halts hok hs

omit [UnicodeData] in
/-- How many requests and attempts are over. -/
def ended (s : System) : ℕ :=
  s.requests.countP (fun r => r.pc.isEnded) + s.attempts.countP Attempt.isFinished

omit [UnicodeData] in
theorem ended_setPc {q : ℕ} {r : Request} (hq : s.requests[q]? = some r)
    (hended : ¬ r.pc.isEnded = true) : s.ended < (s.setPc q .stopped).ended :=
  Nat.add_lt_add_right (Slots.countP_lt_modify hq hended rfl) _

omit [UnicodeData] in
theorem ended_setPhase (hx : s.attempts[i]? = some x) (hfinished : ¬ x.isFinished = true)
    (e : Failure) : s.ended < (s.setPhase i (.finished (.error e))).ended :=
  Nat.add_lt_add_left (Slots.countP_lt_modify hx hfinished rfl) _

/-- An attempt that has not finished can go away, and its transaction with it. -/
theorem exists_failAttempt (h : machine.Reachable s) (hx : s.attempts[i]? = some x)
    (hfinished : ¬ x.isFinished = true) (e : Failure) :
    ∃ s', machine.step s (.failAttempt i e) = some s' ∧ s'.requests = s.requests ∧
      s'.attempts = (s.setPhase i (.finished (.error e))).attempts := by
  simp only [machine, step, failAttempt, hx, Option.bind_eq_bind, Option.bind_some]
  split
  · rename_i hp
    simp [Attempt.isFinished, hp] at hfinished
  · rename_i t call v hp hc
    obtain ⟨u, hu⟩ := Upserts.exists_fail
      ((owned_of_reachable h).isOpen i _ ((owns_iff hx hp hc).mpr rfl))
    rw [hu]
    exact ⟨_, rfl, rfl, rfl⟩
  · exact ⟨_, rfl, rfl, rfl⟩

/-- While a request is being served or an attempt is executing, its process can go away. -/
theorem halted_or_halts (h : machine.Reachable s) :
    s.Halted ∨ ∃ a s', s.Halts a ∧ machine.step s a = some s' ∧ s.ended < s'.ended := by
  by_cases hreq : ∀ r ∈ s.requests, r.pc.isEnded = true
  · by_cases hatt : ∀ x ∈ s.attempts, x.isFinished = true
    · exact .inl ⟨hreq, hatt⟩
    · push Not at hatt
      obtain ⟨x, hmem, hfinished⟩ := hatt
      obtain ⟨i, hx⟩ := List.getElem?_of_mem hmem
      have hlt := ended_setPhase hx hfinished .timeout
      obtain ⟨s', hs', hrequests, hattempts⟩ := exists_failAttempt h hx hfinished .timeout
      refine .inr ⟨.failAttempt i .timeout, s', trivial, hs', hlt.trans_eq ?_⟩
      rw [System.ended, System.ended, hrequests, hattempts]
      rfl
  · push Not at hreq
    obtain ⟨r, hmem, hended⟩ := hreq
    obtain ⟨q, hq⟩ := List.getElem?_of_mem hmem
    refine .inr ⟨.stop q, s.setPc q .stopped, trivial, ?_, ended_setPc hq hended⟩
    simp [machine, step, stop, hq, hended]

/-- **Everything can come to rest.** From any reachable state the processes can all go away, and
what is stored is as it was. -/
theorem exists_halted (h : machine.Reachable s) :
    ∃ s', machine.Path Halts s s' ∧ s'.Halted ∧ SameStores s s' := by
  have hsize : ∀ {t}, machine.Path Halts s t →
      t.requests.length = s.requests.length ∧ t.attempts.length = s.attempts.length := by
    intro t hp
    refine hp.relation (R := fun s t : System => t.requests.length = s.requests.length ∧
      t.attempts.length = s.attempts.length) (fun _ => ⟨rfl, rfl⟩)
      (fun h h' => ⟨h'.1.trans h.1, h'.2.trans h.2⟩) fun {t a u} _ hok hs => ?_
    cases effect_of_step hs with
    | requestMoved => simp [setPc]
    | attemptMoved | upserted => simp [setPhase]
    | arrived | inserted | reset | started | startFailed | scheduled | marked | published =>
      exact hok.elim
    | runMoved _ _ hm => cases hm <;> exact hok.elim
  have hbound : ∀ {t}, machine.Path Halts s t →
      t.ended ≤ s.requests.length + s.attempts.length := by
    intro t hp
    obtain ⟨hrequests, hattempts⟩ := hsize hp
    rw [← hrequests, ← hattempts]
    exact Nat.add_le_add List.countP_le_length List.countP_le_length
  obtain ⟨s', hs', hhalted⟩ := Machine.Path.exists_done Halted ended _ hbound
    fun hp => halted_or_halts (h.path hp)
  exact ⟨s', hs', hhalted, sameStores_of_path hs'⟩

/-- Then no statement of an upsert has anything to wait for. -/
theorem Halted.idle (hs : s.Halted) (h : machine.Reachable s) : s.upserts.Idle := by
  intro q hq
  obtain ⟨i, x, hx, t, call, v, hp, -⟩ := (owned_of_reachable h).owner q hq
  have hfinished := hs.attempts x (List.mem_of_getElem? hx)
  simp [Attempt.isFinished, hp] at hfinished

end
end System

end ReportTriage

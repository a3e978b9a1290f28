import ReportTriage.Lib.Upsert

/-!
# Upserts that meet no other

A transaction is open from its begin to its end, and a statement opens or ends no transaction
but its own. While none is open an upsert commits, whatever the table holds: the row it is to
insert is still missing when it flushes, and the row it has selected is still there.

## Main definitions

* `Table.IsOpen`, `Effect.isOpen_iff` — open transactions, and that statements keep apart.
* `exists_fail`, `eq_of_fail` — an open transaction can always be ended.
* `Table.Idle`, `exists_run_alone` — a table at rest, and the run of an upsert on it.
-/

namespace Upsert

variable {ρ α κ ι τ : Type} {S : Spec ρ α κ ι τ} {T T' : Table ρ α} {t u : ℕ}

/-- Transaction `t` is begun and not over. -/
def Table.IsOpen (T : Table ρ α) (t : ℕ) : Prop :=
  ∃ x, T.txns[t]? = some x ∧ x.phase.ended = none

/-- No transaction is open. -/
def Table.Idle (T : Table ρ α) : Prop := ∀ t, ¬ T.IsOpen t

theorem Table.IsOpen.lt (h : T.IsOpen t) : t < T.txns.length := by
  obtain ⟨x, hx, -⟩ := h
  exact (List.getElem?_eq_some_iff.mp hx).1

theorem Table.isOpen_iff {x : Txn ρ α} (hx : T.txns[t]? = some x) :
    T.IsOpen t ↔ x.phase.ended = none := by
  constructor
  · rintro ⟨y, hy, hopen⟩
    rw [hx] at hy
    cases hy
    exact hopen
  · intro hopen
    exact ⟨x, hx, hopen⟩

/-- Only an open transaction makes a flush wait, and only once it has flushed. -/
theorem Txn.Blocks.ended_eq_none {x : Txn ρ α} {row : ρ} (h : x.Blocks S row) :
    x.phase.ended = none ∧ ∀ existing, x.phase ≠ .selected existing := by
  unfold Txn.Blocks at h
  split at h
  · rename_i hp
    rw [hp]
    exact ⟨rfl, fun existing h => by cases h⟩
  · rename_i hp
    rw [hp]
    exact ⟨rfl, fun existing h => by cases h⟩
  · exact h.elim

section
variable [DecidableEq κ] [DecidableEq ι]

/-- A statement of transaction `t` does not touch any other. -/
theorem Effect.getElem?_of_ne (he : Effect S T t T') (hu : u ≠ t) :
    T'.txns[u]? = T.txns[u]? := by
  have hset : ∀ p, (T.setPhase t p).txns[u]? = T.txns[u]? := fun p => by
    rw [getElem?_setPhase, if_neg (Ne.symm hu)]
  cases he with
  | began args ht =>
    subst ht
    rcases Nat.lt_or_gt_of_ne hu with hlt | hgt
    · exact List.getElem?_append_left hlt
    · rw [List.getElem?_eq_none (by simp; omega), List.getElem?_eq_none (by omega)]
  | selected | inserted | updated | failed | insertCommitted | updateCommitted => exact hset _

theorem Effect.isOpen_iff (he : Effect S T t T') (hu : u ≠ t) : T'.IsOpen u ↔ T.IsOpen u := by
  rw [Table.IsOpen, he.getElem?_of_ne hu, Table.IsOpen]

/-- An open transaction can fail. -/
theorem exists_fail (h : T.IsOpen t) : ∃ T', T.step S (.fail t) = some T' := by
  obtain ⟨x, hx, hopen⟩ := h
  simp only [Table.step, hx, Option.bind_eq_bind, Option.bind_some]
  split
  · rename_i hp
    rw [hp] at hopen
    cases hopen
  · rename_i hp
    rw [hp] at hopen
    cases hopen
  · exact ⟨_, rfl⟩

/-- It is over then, and the rows are as they were. -/
theorem eq_of_fail (h : T.step S (.fail t) = some T') :
    ¬ T'.IsOpen t ∧ T'.rows = T.rows := by
  obtain ⟨x, hx, h⟩ := Option.bind_eq_some_iff.mp h
  obtain rfl : T' = T.setPhase t (.failed .other) := by
    split at h
    · cases h
    · cases h
    · exact (Option.some.inj h).symm
  refine ⟨?_, rfl⟩
  rw [Table.isOpen_iff (x := { x with phase := .failed .other })
    (by rw [getElem?_setPhase, if_pos rfl, hx]; rfl)]
  exact nofun

/-! ## The run -/

omit [DecidableEq κ] [DecidableEq ι] in
/-- In a table where only transaction `t` is open, and has selected, nothing makes its flush
wait. -/
theorem Table.not_blocks (hidle : ∀ u, u ≠ t → ¬ T.IsOpen u) {x : Txn ρ α} {existing : Option ρ}
    (hx : T.txns[t]? = some x) (hp : x.phase = .selected existing) (row : ρ) :
    ∀ y ∈ T.txns, ¬ y.Blocks S row := by
  intro y hy hblocks
  obtain ⟨hended, hflushed⟩ := hblocks.ended_eq_none
  obtain ⟨u, hu⟩ := List.getElem?_of_mem hy
  by_cases hut : u = t
  · subst hut
    rw [hx] at hu
    cases hu
    exact hflushed existing hp
  · exact hidle u hut ⟨y, hu, hended⟩

/-- The flush that follows the select goes through, if the new id is free. -/
theorem flush_alone (hidle : ∀ u, u ≠ t → ¬ T.IsOpen u) {x : Txn ρ α}
    (hx : T.txns[t]? = some x) (hp : x.phase = .selected (T.find S (S.keyOf x.args))) {newId : ι}
    (hnew : ∀ r ∈ T.rows, S.id r ≠ newId) (now : τ) :
    ∃ row p, (p = .inserted row ∨ p = .updated row) ∧
      T.advance S t newId now = some (T.setPhase t p) := by
  have hwait := Table.not_blocks (S := S) hidle hx hp
  simp only [Table.advance, hx, Option.bind_eq_bind, Option.bind_some, hp]
  cases hfind : T.find S (S.keyOf x.args) with
  | none =>
    refine ⟨S.fresh x.args newId now, _, .inl rfl, ?_⟩
    have hkey : ¬ ∃ r ∈ T.rows, S.key r = S.key (S.fresh x.args newId now) := by
      rw [S.key_fresh, ← Table.isSome_find, hfind]
      exact Bool.false_ne_true
    have hid : ¬ ∃ r ∈ T.rows, S.id r = S.id (S.fresh x.args newId now) := by
      rw [S.id_fresh]
      rintro ⟨r, hr, heq⟩
      exact hnew r hr heq
    have hblocks : ¬ ∃ y ∈ T.txns, y.Blocks S (S.fresh x.args newId now) := by
      rintro ⟨y, hy, hb⟩
      exact hwait _ y hy hb
    simp only [Table.flushInsert, if_neg hkey, if_neg hid, if_neg hblocks]
    rfl
  | some loaded =>
    obtain ⟨hmem, -⟩ := Table.find_some S hfind
    have hblocks : ¬ ∃ y ∈ T.txns, y.Blocks S loaded := by
      rintro ⟨y, hy, hb⟩
      exact hwait _ y hy hb
    obtain ⟨stored, hstored⟩ : ∃ stored, T.rows.find? (fun r => S.id r = S.id loaded) =
        some stored := by
      rw [← Option.isSome_iff_exists, List.find?_isSome]
      exact ⟨loaded, hmem, by simp⟩
    refine ⟨S.overwrite x.args now loaded stored, _, .inr rfl, ?_⟩
    simp only [Table.flushUpdate, if_neg hblocks, hstored]
    rfl

/-- The commit of a transaction that has flushed. -/
theorem commit_of_flushed {x : Txn ρ α} {row : ρ} (hx : T.txns[t]? = some x)
    (hp : x.phase = .inserted row ∨ x.phase = .updated row) (newId : ι) (now : τ) :
    ∃ T', T.advance S t newId now = some T' ∧
      T'.txns[t]? = some { x with phase := .committed } := by
  have hset : ∀ rows, ({ T.setPhase t .committed with rows := rows } : Table ρ α).txns[t]? =
      some { x with phase := .committed } := by
    intro rows
    change (T.setPhase t .committed).txns[t]? = _
    rw [getElem?_setPhase, if_pos rfl, hx]
    rfl
  simp only [Table.advance, hx, Option.bind_eq_bind, Option.bind_some]
  rcases hp with hp | hp <;> rw [hp] <;> exact ⟨_, rfl, hset _⟩

/-- **An upsert that is begun while no other is open commits**, by four statements, and leaves
the table at rest. -/
theorem exists_run_alone (hidle : T.Idle) (args : α) {newId : ι}
    (hnew : ∀ r ∈ T.rows, S.id r ≠ newId) (now : τ) : ∃ T₁ T₂ T₃ T₄ : Table ρ α,
      T.step S (.begin args) = some T₁ ∧
      T₁.step S (.advance T.txns.length newId now) = some T₂ ∧
      T₂.step S (.advance T.txns.length newId now) = some T₃ ∧
      T₃.step S (.advance T.txns.length newId now) = some T₄ ∧
      (T₁.IsOpen T.txns.length ∧ T₂.IsOpen T.txns.length ∧ T₃.IsOpen T.txns.length) ∧
      (∃ x, T₄.txns[T.txns.length]? = some x ∧ x.phase = .committed) ∧ T₄.Idle := by
  set n := T.txns.length with hn
  -- Begin and select.
  have h₁ : T.step S (.begin args) = some { T with txns := T.txns ++ [⟨args, .opened⟩] } := rfl
  set T₁ : Table ρ α := { T with txns := T.txns ++ [⟨args, .opened⟩] } with hT₁
  have hx₁ : T₁.txns[n]? = some ⟨args, .opened⟩ := begun_of_step h₁
  have h₂ : T₁.advance S n newId now =
      some (T₁.setPhase n (.selected (T₁.find S (S.keyOf args)))) := by
    simp only [Table.advance, hx₁, Option.bind_eq_bind, Option.bind_some]
  set T₂ := T₁.setPhase n (.selected (T₁.find S (S.keyOf args))) with hT₂
  have hx₂ : T₂.txns[n]? = some ⟨args, .selected (T₂.find S (S.keyOf args))⟩ := by
    rw [hT₂, getElem?_setPhase, if_pos rfl, hx₁]
    rfl
  -- Only this transaction is open meanwhile.
  have hidle₁ : ∀ u, u ≠ n → ¬ T₁.IsOpen u := fun u hu =>
    (effect_of_step (S := S) h₁).isOpen_iff hu |>.not.mpr (hidle u)
  have hidle₂ : ∀ u, u ≠ n → ¬ T₂.IsOpen u := fun u hu =>
    (effect_of_advance (S := S) h₂).isOpen_iff hu |>.not.mpr (hidle₁ u hu)
  -- Flush and commit.
  obtain ⟨row, p, hp, h₃⟩ := flush_alone hidle₂ hx₂ rfl hnew now
  have hx₃ : (T₂.setPhase n p).txns[n]? = some ⟨args, p⟩ := by
    rw [getElem?_setPhase, if_pos rfl, hx₂]
    rfl
  obtain ⟨T₄, h₄, hx₄⟩ := commit_of_flushed (S := S) hx₃ hp newId now
  refine ⟨T₁, T₂, _, T₄, h₁, h₂, h₃, h₄, ⟨⟨_, hx₁, rfl⟩, ⟨_, hx₂, rfl⟩, _, hx₃, ?_⟩,
    ⟨_, hx₄, rfl⟩, fun u hopen => ?_⟩
  · rcases hp with rfl | rfl <;> rfl
  · by_cases hu : u = n
    · subst hu
      have := (Table.isOpen_iff hx₄).mp hopen
      cases this
    · have hopen₃ := ((effect_of_advance h₄).isOpen_iff hu).mp hopen
      exact hidle₂ u hu (((effect_of_advance h₃).isOpen_iff hu).mp hopen₃)

end
end Upsert

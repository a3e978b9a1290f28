import Mathlib.Data.List.Find
import Mathlib.Data.List.Infix
import Mathlib.Data.List.Pairwise
import ReportTriage.Lib.Machine
import ReportTriage.Lib.Slots

/-!
# Select-then-write upserts under READ COMMITTED

A table has a primary key (`id`) and one more unique column (`key`). An upsert is not one
statement but a transaction of three: select the row of its key, flush an INSERT when there
was none and an UPDATE of the selected row otherwise, commit. Any number of transactions
run, and their statements interleave in any order.

The database contributes two rules. A write that collides with an uncommitted write of
another transaction waits for it (the action is disabled meanwhile); an INSERT that
collides with a committed row fails. A failed transaction is rolled back as a whole.

The UPDATE need not assign every column (`Spec.overwrite` receives the row the transaction
selected and the row stored now), so lost and torn updates are expressible; what this module
proves holds whatever the update does to the other columns.

## Main definitions

* `Upsert.Spec` — what a program supplies: the two columns, and how rows are made.
* `Upsert.Table`, `Upsert.Table.step` — the table with its open transactions.
* `Upsert.Sound` — the invariant that carries the unique constraints.
* `Upsert.Effect`, `effect_of_step` — everything one statement can do.
* `sound_of_path`, `ids_mono_of_path`, `settled_winner`, `rows_eq_of_failed`, `progress` —
  uniqueness, identity, the winner of an insert race, atomicity, and no deadlock.
* `Effect.frame` — what a statement leaves alone.
* `Table.Contents`, `Effect.contents` — a property of the rows that the calls establish.
* `find_of_step`, `find_of_run` — what a key reads after a statement, and after a run.
-/

namespace Upsert

/-- An upsert into rows `ρ` from call arguments `α`: the unique column has type `κ`, the
primary key type `ι`, and a statement is stamped with a `τ`. The laws say that both
columns are written by the INSERT and never by the UPDATE. -/
structure Spec (ρ α κ ι τ : Type) where
  id : ρ → ι
  key : ρ → κ
  keyOf : α → κ
  /-- The row an INSERT adds. -/
  fresh : α → ι → τ → ρ
  /-- The row version an UPDATE leaves: call, stamp, selected row, stored row. -/
  overwrite : α → τ → ρ → ρ → ρ
  id_fresh : ∀ a i t, id (fresh a i t) = i
  key_fresh : ∀ a i t, key (fresh a i t) = keyOf a
  id_overwrite : ∀ a t l r, id (overwrite a t l r) = id r
  key_overwrite : ∀ a t l r, key (overwrite a t l r) = key r

/-- Why a transaction failed. -/
inductive Cause
  | uniqueKey
  | primaryKey
  | other
  deriving DecidableEq, Repr

/-- Where a transaction stands. `inserted` and `updated` hold the uncommitted row. -/
inductive Phase (ρ : Type)
  | opened
  | selected (existing : Option ρ)
  | inserted (row : ρ)
  | updated (row : ρ)
  | committed
  | failed (cause : Cause)

/-- How a transaction ended, if it has: by its commit, or for a cause. -/
def Phase.ended {ρ : Type} : Phase ρ → Option (Option Cause)
  | committed => some none
  | failed cause => some (some cause)
  | _ => none

structure Txn (ρ α : Type) where
  args : α
  phase : Phase ρ

/-- A table: its committed rows, and every transaction ever begun on it. -/
structure Table (ρ α : Type) where
  rows : List ρ
  txns : List (Txn ρ α)

/-- The statements of the transactions. `fail` is any error at the current statement, or
the end of the program that runs it. -/
inductive Action (α ι τ : Type)
  | begin (args : α)
  | advance (txn : ℕ) (newId : ι) (now : τ)
  | fail (txn : ℕ)

variable {ρ α κ ι τ : Type} (S : Spec ρ α κ ι τ)

/-- Two rows that cannot both be in the table. -/
def Collides (a b : ρ) : Prop := S.id a = S.id b ∨ S.key a = S.key b

instance [DecidableEq κ] [DecidableEq ι] (a b : ρ) : Decidable (Collides S a b) :=
  inferInstanceAs (Decidable (_ ∨ _))

/-- The transaction holds an uncommitted row that collides with `row`. -/
def Txn.Blocks (row : ρ) (x : Txn ρ α) : Prop :=
  match x.phase with
  | .inserted r | .updated r => Collides S r row
  | _ => False

instance [DecidableEq κ] [DecidableEq ι] (row : ρ) (x : Txn ρ α) : Decidable (x.Blocks S row) := by
  unfold Txn.Blocks
  split <;> infer_instance

namespace Table

/-- Move transaction `t` to phase `p`. -/
def setPhase (T : Table ρ α) (t : ℕ) (p : Phase ρ) : Table ρ α :=
  { T with txns := T.txns.modify t fun x => { x with phase := p } }

/-- The identity of each committed row, in order of insertion. -/
def ids (T : Table ρ α) : List (ι × κ) := T.rows.map fun r => (S.id r, S.key r)

section
variable [DecidableEq κ] [DecidableEq ι]

/-- `SELECT … WHERE key = …`: the committed row of the key. -/
def find (T : Table ρ α) (k : κ) : Option ρ := T.rows.find? fun r => S.key r = k

omit [DecidableEq ι] in
theorem find_some {T : Table ρ α} {k : κ} {r : ρ} (h : T.find S k = some r) :
    r ∈ T.rows ∧ S.key r = k :=
  ⟨List.mem_of_find?_eq_some h, by simpa using List.find?_some h⟩

omit [DecidableEq ι] in
theorem isSome_find {T : Table ρ α} {k : κ} : (T.find S k).isSome ↔ ∃ r ∈ T.rows, S.key r = k := by
  simp [find]

/-- Flush of an INSERT. -/
def flushInsert (T : Table ρ α) (row : ρ) : Option (Phase ρ) :=
  if ∃ r ∈ T.rows, S.key r = S.key row then some (.failed .uniqueKey)
  else if ∃ r ∈ T.rows, S.id r = S.id row then some (.failed .primaryKey)
  else if ∃ x ∈ T.txns, x.Blocks S row then none
  else some (.inserted row)

/-- Flush of `UPDATE … WHERE id = …` for the row `loaded` selected before. -/
def flushUpdate (T : Table ρ α) (args : α) (now : τ) (loaded : ρ) : Option (Phase ρ) :=
  if ∃ x ∈ T.txns, x.Blocks S loaded then none
  else match T.rows.find? fun r => S.id r = S.id loaded with
    | none => some (.failed .other)
    | some stored => some (.updated (S.overwrite args now loaded stored))

/-- The committed rows once `row` is the version of the row with its id. -/
def replace (rows : List ρ) (row : ρ) : List ρ :=
  rows.map fun r => if S.id r = S.id row then row else r

/-- Run the next statement of transaction `t`. -/
def advance (T : Table ρ α) (t : ℕ) (newId : ι) (now : τ) : Option (Table ρ α) := do
  let x ← T.txns[t]?
  match x.phase with
  | .opened => some (T.setPhase t (.selected (T.find S (S.keyOf x.args))))
  | .selected none => return T.setPhase t (← T.flushInsert S (S.fresh x.args newId now))
  | .selected (some loaded) => return T.setPhase t (← T.flushUpdate S x.args now loaded)
  | .inserted row => some { T.setPhase t .committed with rows := T.rows ++ [row] }
  | .updated row => some { T.setPhase t .committed with rows := replace S T.rows row }
  | .committed | .failed _ => none

def step (T : Table ρ α) : Action α ι τ → Option (Table ρ α)
  | .begin args => some { T with txns := T.txns ++ [⟨args, .opened⟩] }
  | .advance t newId now => T.advance S t newId now
  | .fail t => do
    let x ← T.txns[t]?
    match x.phase with
    | .committed | .failed _ => none
    | _ => some (T.setPhase t (.failed .other))

end
end Table

/-- The transaction an action belongs to. -/
def Action.txn (T : Table ρ α) : Action α ι τ → ℕ
  | .begin _ => T.txns.length
  | .advance t _ _ => t
  | .fail t => t

/-- **Everything one statement of transaction `t` can do**, with what the database checked
before it let the statement through. -/
inductive Effect [DecidableEq κ] [DecidableEq ι] (T : Table ρ α) (t : ℕ) : Table ρ α → Prop
  | began (args : α) (ht : t = T.txns.length) :
      Effect T t { T with txns := T.txns ++ [⟨args, .opened⟩] }
  | selected {x : Txn ρ α} (hx : T.txns[t]? = some x) (hp : x.phase = .opened) :
      Effect T t (T.setPhase t (.selected (T.find S (S.keyOf x.args))))
  | inserted {x : Txn ρ α} {row : ρ} (hx : T.txns[t]? = some x) (hp : x.phase = .selected none)
      (newId : ι) (now : τ) (hrow : row = S.fresh x.args newId now)
      (hfree : ∀ r ∈ T.rows, ¬ Collides S r row) (hwait : ∀ y ∈ T.txns, ¬ y.Blocks S row) :
      Effect T t (T.setPhase t (.inserted row))
  | updated {x : Txn ρ α} {loaded stored : ρ} (hx : T.txns[t]? = some x)
      (hp : x.phase = .selected (some loaded)) (hstored : stored ∈ T.rows)
      (hid : S.id stored = S.id loaded) (now : τ) :
      Effect T t (T.setPhase t (.updated (S.overwrite x.args now loaded stored)))
  | failed {x : Txn ρ α} (hx : T.txns[t]? = some x) (cause : Cause)
      (hopen : x.phase ≠ .committed ∧ ∀ c, x.phase ≠ .failed c)
      (hraced : cause = .uniqueKey → ∃ r ∈ T.rows, S.key r = S.keyOf x.args) :
      Effect T t (T.setPhase t (.failed cause))
  | insertCommitted {x : Txn ρ α} {row : ρ} (hx : T.txns[t]? = some x)
      (hp : x.phase = .inserted row) :
      Effect T t { T.setPhase t .committed with rows := T.rows ++ [row] }
  | updateCommitted {x : Txn ρ α} {row : ρ} (hx : T.txns[t]? = some x)
      (hp : x.phase = .updated row) :
      Effect T t { T.setPhase t .committed with rows := Table.replace S T.rows row }

variable {S} {T T' : Table ρ α} {t : ℕ}

section
variable [DecidableEq κ] [DecidableEq ι]

theorem effect_of_advance {newId : ι} {now : τ} (h : T.advance S t newId now = some T') :
    Effect S T t T' := by
  obtain ⟨x, hx, h⟩ := Option.bind_eq_some_iff.mp h
  cases hp : x.phase with
  | opened =>
    simp only [hp, Option.some.injEq] at h
    subst h
    exact .selected hx hp
  | selected existing =>
    cases existing with
    | none =>
      simp only [hp, Table.flushInsert] at h
      have hopen : x.phase ≠ .committed ∧ ∀ c, x.phase ≠ .failed c := by simp [hp]
      split_ifs at h with hkey hid hwait
      · cases h
        refine .failed hx _ hopen fun _ => ?_
        simpa only [S.key_fresh] using hkey
      · cases h
        exact .failed hx _ hopen nofun
      · cases h
      · cases h
        push Not at hkey hid hwait
        exact .inserted hx hp newId now rfl (fun r hr hc => hc.elim (hid r hr) (hkey r hr)) hwait
    | some loaded =>
      simp only [hp, Table.flushUpdate] at h
      split_ifs at h with hwait
      · cases h
      · cases hs : T.rows.find? fun r => S.id r = S.id loaded with
        | none =>
          simp only [hs] at h
          cases h
          exact .failed hx _ (by simp [hp]) nofun
        | some stored =>
          simp only [hs] at h
          cases h
          exact .updated hx hp (List.mem_of_find?_eq_some hs)
            (by simpa using List.find?_some hs) now
  | inserted row =>
    simp only [hp, Option.some.injEq] at h
    subst h
    exact .insertCommitted hx hp
  | updated row =>
    simp only [hp, Option.some.injEq] at h
    subst h
    exact .updateCommitted hx hp
  | committed => simp [hp] at h
  | failed cause => simp [hp] at h

theorem effect_of_step {a : Action α ι τ} (h : T.step S a = some T') :
    Effect S T (a.txn T) T' := by
  cases a with
  | begin args =>
    simp only [Table.step, Option.some.injEq] at h
    subst h
    exact .began args rfl
  | advance t newId now => exact effect_of_advance h
  | fail t =>
    obtain ⟨x, hx, h⟩ := Option.bind_eq_some_iff.mp h
    have hT : x.phase ≠ .committed ∧ (∀ c, x.phase ≠ .failed c) ∧
        T' = T.setPhase t (.failed .other) := by
      cases hp : x.phase <;> simp_all
    obtain ⟨hc, hf, rfl⟩ := hT
    exact .failed hx _ ⟨hc, hf⟩ nofun

end

/-! ## The unique constraints

The invariant speaks of the identities of the committed rows only, which an UPDATE leaves
alone; so among the effects only a committed INSERT has anything to show for the other
transactions, and what it needs is that no two of them are about to insert rows that
collide. -/

variable (S) in
/-- What the committed identities owe to a transaction in its present phase. -/
def Txn.Fits (ids : List (ι × κ)) (x : Txn ρ α) : Prop :=
  match x.phase with
  | .selected (some l) => S.key l = S.keyOf x.args ∧ (S.id l, S.key l) ∈ ids
  | .inserted row => S.key row = S.keyOf x.args ∧ ∀ p ∈ ids, p.1 ≠ S.id row ∧ p.2 ≠ S.key row
  | .updated row => S.key row = S.keyOf x.args ∧ (S.id row, S.key row) ∈ ids
  | .committed | .failed .uniqueKey => ∃ p ∈ ids, p.2 = S.keyOf x.args
  | _ => True

variable (S) in
/-- The unique constraints hold of the committed rows, and will after any commit. -/
structure Sound (T : Table ρ α) : Prop where
  distinct : (T.ids S).Pairwise fun p q => p.1 ≠ q.1 ∧ p.2 ≠ q.2
  fits : ∀ (t : ℕ) (x : Txn ρ α), T.txns[t]? = some x → x.Fits S (T.ids S)
  apart : ∀ (t u : ℕ) (x y : Txn ρ α) (r r' : ρ), t ≠ u → T.txns[t]? = some x →
    T.txns[u]? = some y → x.phase = .inserted r → y.phase = .inserted r' → ¬ Collides S r r'

theorem getElem?_setPhase (T : Table ρ α) (t u : ℕ) (p : Phase ρ) :
    (T.setPhase t p).txns[u]? =
      if t = u then (T.txns[u]?).map fun x => { x with phase := p } else T.txns[u]? := by
  simp only [Table.setPhase, List.getElem?_modify]
  split <;> simp

/-- Only transaction `t` moved. -/
theorem getElem?_setPhase_cases {x y : Txn ρ α} {u : ℕ} {p : Phase ρ} (hx : T.txns[t]? = some x)
    (hy : (T.setPhase t p).txns[u]? = some y) :
    (u = t ∧ y = { x with phase := p }) ∨ (u ≠ t ∧ T.txns[u]? = some y) := by
  rw [getElem?_setPhase] at hy
  split at hy
  · rename_i heq
    subst heq
    rw [hx] at hy
    exact .inl ⟨rfl, (Option.some.inj hy).symm⟩
  · rename_i hne
    exact .inr ⟨Ne.symm hne, hy⟩

theorem Table.mem_ids {p : ι × κ} : p ∈ T.ids S ↔ ∃ r ∈ T.rows, (S.id r, S.key r) = p :=
  List.mem_map

/-- Identities are only ever added, so what a transaction is owed it keeps — except that a
row it is about to insert must not collide with the ones added. -/
theorem Txn.Fits.grow {x : Txn ρ α} {ids ids' : List (ι × κ)} (h : x.Fits S ids)
    (hsub : ∀ p ∈ ids, p ∈ ids')
    (hnew : ∀ row, x.phase = .inserted row →
      ∀ p ∈ ids', p ∉ ids → p.1 ≠ S.id row ∧ p.2 ≠ S.key row) : x.Fits S ids' := by
  unfold Txn.Fits at h ⊢
  split at h
  · exact ⟨h.1, hsub _ h.2⟩
  · rename_i row hp
    refine ⟨h.1, ?_⟩
    intro p hp'
    by_cases hold : p ∈ ids
    · exact h.2 p hold
    · exact hnew row hp p hp' hold
  · exact ⟨h.1, hsub _ h.2⟩
  · obtain ⟨p, hp, hk⟩ := h
    exact ⟨p, hsub p hp, hk⟩
  · obtain ⟨p, hp, hk⟩ := h
    exact ⟨p, hsub p hp, hk⟩
  · trivial

/-- A row is determined by either of its columns. -/
theorem Sound.eq_of_collides (h : Sound S T) {r r' : ρ} (hr : r ∈ T.rows) (hr' : r' ∈ T.rows)
    (hc : Collides S r r') : (S.id r, S.key r) = (S.id r', S.key r') := by
  by_contra hne
  have : Std.Symm fun p q : ι × κ => p.1 ≠ q.1 ∧ p.2 ≠ q.2 :=
    ⟨fun p q h => ⟨h.1.symm, h.2.symm⟩⟩
  have hd := h.distinct.forall (Table.mem_ids.mpr ⟨r, hr, rfl⟩)
    (Table.mem_ids.mpr ⟨r', hr', rfl⟩) hne
  exact hc.elim hd.1 hd.2

/-- An UPDATE leaves every identity as it was. -/
theorem Sound.ids_replace [DecidableEq ι] (h : Sound S T) {row : ρ}
    (hrow : (S.id row, S.key row) ∈ T.ids S) :
    (Table.replace S T.rows row).map (fun r => (S.id r, S.key r)) = T.ids S := by
  obtain ⟨r₀, hr₀, heq⟩ := Table.mem_ids.mp hrow
  simp only [Table.replace, Table.ids, List.map_map]
  refine List.map_congr_left fun r hr => ?_
  simp only [Function.comp_apply]
  split
  · rename_i hid
    have hc : Collides S r r₀ := .inl (hid.trans (congrArg Prod.fst heq).symm)
    rw [← heq, ← h.eq_of_collides hr hr₀ hc]
  · rfl

/-- Moving one transaction to a phase that the committed identities support, and that is not
an INSERT, keeps the constraints. -/
theorem Sound.setPhase (h : Sound S T) {x : Txn ρ α} {p : Phase ρ} (hx : T.txns[t]? = some x)
    (hfits : ({ x with phase := p } : Txn ρ α).Fits S (T.ids S))
    (hapart : ∀ r, p = .inserted r → ∀ y ∈ T.txns, ¬ y.Blocks S r) :
    Sound S (T.setPhase t p) := by
  have hget := fun u y => getElem?_setPhase_cases (u := u) (y := y) (p := p) hx
  -- A row another transaction holds uncommitted does not collide with one let through.
  have hfree : ∀ (u : ℕ) (y : Txn ρ α) (r r' : ρ), T.txns[u]? = some y →
      y.phase = .inserted r' → p = .inserted r → ¬ Collides S r' r := by
    intro u y r r' hy hr' hr
    have hb := hapart r hr y (List.mem_of_getElem? hy)
    simpa only [Txn.Blocks, hr'] using hb
  refine ⟨h.distinct, ?_, ?_⟩
  · intro u y hy
    rcases hget u y hy with ⟨-, rfl⟩ | ⟨-, hy⟩
    · exact hfits
    · exact h.fits u y hy
  · intro u v y z r r' hne hy hz hr hr'
    rcases hget u y hy with ⟨rfl, rfl⟩ | ⟨-, hy'⟩
    · rcases hget v z hz with ⟨rfl, -⟩ | ⟨-, hz'⟩
      · exact absurd rfl hne
      · exact fun hc => hfree v z r r' hz' hr' hr (hc.imp Eq.symm Eq.symm)
    · rcases hget v z hz with ⟨rfl, rfl⟩ | ⟨-, hz'⟩
      · exact hfree u y r' r hy' hr hr'
      · exact h.apart u v y z r r' hne hy' hz' hr hr'

/-- **The unique constraints are kept by every statement of every transaction.** -/
theorem Effect.sound [DecidableEq κ] [DecidableEq ι] (h : Sound S T) (he : Effect S T t T') :
    Sound S T' := by
  cases he with
  | began args ht =>
    have hget : ∀ (u : ℕ) (y : Txn ρ α), (T.txns ++ [⟨args, .opened⟩])[u]? = some y →
        T.txns[u]? = some y ∨ y = ⟨args, .opened⟩ := by
      intro u y hy
      rw [List.getElem?_append] at hy
      split at hy
      · exact .inl hy
      · exact .inr (List.mem_singleton.mp (List.mem_of_getElem? hy))
    refine ⟨h.distinct, ?_, ?_⟩
    · intro u y hy
      rcases hget u y hy with hy | rfl
      · exact h.fits u y hy
      · trivial
    · intro u v y z r r' hne hy hz hr hr'
      rcases hget u y hy with hy | rfl
      · rcases hget v z hz with hz | rfl
        · exact h.apart u v y z r r' hne hy hz hr hr'
        · cases hr'
      · cases hr
  | @selected x hx hp =>
    refine h.setPhase hx ?_ nofun
    cases hf : T.find S (S.keyOf x.args) with
    | none => trivial
    | some l =>
      have hkey : S.key l = S.keyOf x.args := by simpa using List.find?_some hf
      exact ⟨hkey, Table.mem_ids.mpr ⟨l, List.mem_of_find?_eq_some hf, rfl⟩⟩
  | @inserted x row hx hp newId now hrow hfree hwait =>
    refine h.setPhase hx ⟨?_, ?_⟩ fun r hr => ?_
    · rw [hrow, S.key_fresh]
    · intro p hp'
      obtain ⟨r, hr, rfl⟩ := Table.mem_ids.mp hp'
      exact not_or.mp (hfree r hr)
    · cases hr
      exact hwait
  | @updated x loaded stored hx hp hstored hid now =>
    refine h.setPhase hx ⟨?_, ?_⟩ nofun
    all_goals
      have hl := h.fits _ _ hx
      simp only [Txn.Fits, hp] at hl
      obtain ⟨r, hr, heq⟩ := Table.mem_ids.mp hl.2
      have hsame := h.eq_of_collides hstored hr (.inl (hid.trans (congrArg Prod.fst heq).symm))
    · rw [S.key_overwrite, ← hl.1]
      exact (congrArg Prod.snd hsame).trans (congrArg Prod.snd heq)
    · rw [S.key_overwrite, S.id_overwrite]
      exact Table.mem_ids.mpr ⟨stored, hstored, rfl⟩
  | @failed x hx cause hopen hraced =>
    refine h.setPhase hx ?_ nofun
    cases cause with
    | uniqueKey =>
      obtain ⟨r, hr, hk⟩ := hraced rfl
      exact ⟨_, Table.mem_ids.mpr ⟨r, hr, rfl⟩, hk⟩
    | primaryKey => trivial
    | other => trivial
  | @insertCommitted x row hx hp =>
    have hids : ({ T.setPhase t .committed with rows := T.rows ++ [row] } : Table ρ α).ids S =
        T.ids S ++ [(S.id row, S.key row)] := by simp [Table.ids]
    have hrow := h.fits _ _ hx
    simp only [Txn.Fits, hp] at hrow
    refine ⟨?_, ?_, ?_⟩
    · rw [hids, List.pairwise_append]
      refine ⟨h.distinct, List.pairwise_singleton _ _, ?_⟩
      intro p hp' q hq
      rw [List.mem_singleton.mp hq]
      exact hrow.2 p hp'
    · intro u y hy
      rw [hids]
      rcases getElem?_setPhase_cases hx hy with ⟨-, rfl⟩ | ⟨hne, hy⟩
      · exact ⟨_, List.mem_append_right _ (List.mem_singleton_self _), hrow.1⟩
      · refine (h.fits u y hy).grow (fun p hp' => List.mem_append_left _ hp') ?_
        intro r' hr' p hp' hnew
        have hlast : p = (S.id row, S.key row) := by
          rcases List.mem_append.mp hp' with hold | hlast
          · exact absurd hold hnew
          · exact List.mem_singleton.mp hlast
        subst hlast
        exact not_or.mp (h.apart t u x y row r' (Ne.symm hne) hx hy hp hr')
    · intro u v y z r r' hne hy hz hr hr'
      rcases getElem?_setPhase_cases hx hy with ⟨-, rfl⟩ | ⟨-, hy⟩
      · cases hr
      · rcases getElem?_setPhase_cases hx hz with ⟨-, rfl⟩ | ⟨-, hz⟩
        · cases hr'
        · exact h.apart u v y z r r' hne hy hz hr hr'
  | @updateCommitted x row hx hp =>
    have hrow := h.fits _ _ hx
    simp only [Txn.Fits, hp] at hrow
    have hids : ({ T.setPhase t .committed with rows := Table.replace S T.rows row } :
        Table ρ α).ids S = T.ids S := h.ids_replace hrow.2
    have hset : Sound S (T.setPhase t .committed) :=
      h.setPhase hx ⟨_, hrow.2, hrow.1⟩ nofun
    refine ⟨?_, ?_, hset.apart⟩
    · rw [hids]; exact h.distinct
    · rw [hids]; exact hset.fits

/-! ## What a statement leaves alone -/

section
variable [DecidableEq κ] [DecidableEq ι]

/-- A transaction other than the one that moves stays where it is. -/
theorem Effect.other (he : Effect S T t T') {u : ℕ} {y : Txn ρ α} (hu : u ≠ t)
    (hy : T.txns[u]? = some y) : T'.txns[u]? = some y := by
  have hset : ∀ p, (T.setPhase t p).txns[u]? = some y := fun p => by
    rw [getElem?_setPhase, if_neg (Ne.symm hu), hy]
  cases he with
  | began args ht =>
    have hlt : u < T.txns.length := (List.getElem?_eq_some_iff.mp hy).1
    rw [List.getElem?_append_left hlt]
    exact hy
  | selected | inserted | updated | failed | insertCommitted | updateCommitted => exact hset _

/-- A transaction that moves was not finished. -/
theorem Effect.unfinished (he : Effect S T t T') {x : Txn ρ α} (hx : T.txns[t]? = some x) :
    x.phase ≠ .committed ∧ ∀ c, x.phase ≠ .failed c := by
  cases he with
  | began args ht => simp [ht] at hx
  | failed hx' cause hopen hraced => rw [hx'] at hx; cases hx; exact hopen
  | selected hx' hp | inserted hx' hp | updated hx' hp | insertCommitted hx' hp
  | updateCommitted hx' hp => rw [hx'] at hx; cases hx; simp [hp]

/-- **Atomicity.** A statement that changes the committed rows ends its transaction with a
commit. -/
theorem Effect.rows (he : Effect S T t T') :
    T'.rows = T.rows ∨ ∃ x, T'.txns[t]? = some x ∧ x.phase = .committed := by
  cases he with
  | began | selected | inserted | updated | failed => exact .inl rfl
  | @insertCommitted x row hx hp | @updateCommitted x row hx hp =>
    refine .inr ⟨{ x with phase := .committed }, ?_, rfl⟩
    change (T.setPhase t .committed).txns[t]? = _
    rw [getElem?_setPhase, if_pos rfl, hx]
    rfl

/-- **Identity.** The committed rows keep their identities and their places; new ones come
after them. -/
theorem Effect.ids_mono (h : Sound S T) (he : Effect S T t T') : T.ids S <+: T'.ids S := by
  cases he with
  | began | selected | inserted | updated | failed => exact List.prefix_rfl
  | @insertCommitted x row hx hp =>
    refine ⟨[(S.id row, S.key row)], ?_⟩
    simp [Table.ids]
  | @updateCommitted x row hx hp =>
    have hrow := h.fits _ _ hx
    simp only [Txn.Fits, hp] at hrow
    exact (h.ids_replace hrow.2) ▸ List.prefix_rfl

/-- **The frame.** A statement of a transaction leaves the rows of every other key as they
were. -/
theorem Effect.frame (h : Sound S T) (he : Effect S T t T') {k : κ}
    (hk : ∀ x, T.txns[t]? = some x → S.keyOf x.args = k) :
    (T'.rows.filter fun r => S.key r ≠ k) = T.rows.filter fun r => S.key r ≠ k := by
  cases he with
  | began | selected | inserted | updated | failed => rfl
  | @insertCommitted x row hx hp =>
    have hfits := h.fits _ _ hx
    simp only [Txn.Fits, hp] at hfits
    simp [List.filter_append, hfits.1, hk x hx]
  | @updateCommitted x row hx hp =>
    have hfits := h.fits _ _ hx
    simp only [Txn.Fits, hp] at hfits
    have hkey : S.key row = k := hfits.1.trans (hk x hx)
    obtain ⟨r₀, hr₀, heq⟩ := Table.mem_ids.mp hfits.2
    -- A row with the id of the new version has its key too, so it is of the key written.
    have hsame : ∀ r ∈ T.rows, S.id r = S.id row → S.key r = k := by
      intro r hr hid
      have hcollides : Collides S r r₀ := .inl (hid.trans (congrArg Prod.fst heq).symm)
      rw [← hkey]
      exact congrArg Prod.snd ((h.eq_of_collides hr hr₀ hcollides).trans heq)
    refine Slots.filter_map_eq fun r hr => ?_
    split
    · rename_i hid
      simp [hkey, hsame r hr hid]
    · simp

/-- A transaction keeps its arguments. -/
theorem Effect.args (he : Effect S T t T') {u : ℕ} {y : Txn ρ α} (hy : T.txns[u]? = some y) :
    ∃ z, T'.txns[u]? = some z ∧ z.args = y.args := by
  have hset : ∀ p, ∃ z, (T.setPhase t p).txns[u]? = some z ∧ z.args = y.args := fun p => by
    rw [getElem?_setPhase, hy]
    split <;> exact ⟨_, rfl, rfl⟩
  cases he with
  | began args ht => exact ⟨y, Slots.append_of_some hy, rfl⟩
  | selected | inserted | updated | failed | insertCommitted | updateCommitted => exact hset _

/-- Arguments come into the table with the action that begins their transaction. -/
theorem args_of_step {a : Action α ι τ} (h : T.step S a = some T') {y : Txn ρ α}
    (hy : y ∈ T'.txns) : (∃ x ∈ T.txns, x.args = y.args) ∨ a = .begin y.args := by
  have hset : ∀ {u : ℕ} {p : Phase ρ}, y ∈ (T.setPhase u p).txns →
      ∃ x ∈ T.txns, x.args = y.args := by
    intro u p hy
    obtain ⟨v, hv⟩ := List.getElem?_of_mem hy
    rw [getElem?_setPhase] at hv
    split at hv
    · obtain ⟨x, hx, rfl⟩ := Option.map_eq_some_iff.mp hv
      exact ⟨x, List.mem_of_getElem? hx, rfl⟩
    · exact ⟨y, List.mem_of_getElem? hv, rfl⟩
  cases a with
  | begin args =>
    simp only [Table.step, Option.some.injEq] at h
    subst h
    rcases List.mem_append.mp hy with hy | hy
    · exact .inl ⟨y, hy, rfl⟩
    · rw [List.mem_singleton.mp hy]
      exact .inr rfl
  | advance | fail =>
    obtain ⟨x, hx, -⟩ := Option.bind_eq_some_iff.mp h
    have hlt := (List.getElem?_eq_some_iff.mp hx).1
    cases effect_of_step h with
    | began args ht => exact absurd ht (Nat.ne_of_lt hlt)
    | selected | inserted | updated | failed | insertCommitted | updateCommitted =>
      exact .inl (hset hy)

/-! ## The machine, and what holds in all its runs -/

variable (S) in
/-- Any table that meets the constraints, with no transaction begun yet. -/
def machine : Machine (Table ρ α) (Action α ι τ) where
  init T := T.txns = [] ∧ (T.ids S).Pairwise fun p q => p.1 ≠ q.1 ∧ p.2 ≠ q.2
  step := Table.step S

variable {s s' : Table ρ α} {a : Action α ι τ}

theorem sound_of_init (h : (machine S).init T) : Sound S T :=
  ⟨h.2, by simp [h.1], by simp [h.1]⟩

omit [DecidableEq κ] [DecidableEq ι] in
/-- A transaction that has committed has left the row of its key. -/
theorem Sound.exists_key_of_ended (h : Sound S T) {x : Txn ρ α} (hx : T.txns[t]? = some x)
    (hended : x.phase.ended = some none) : ∃ p ∈ T.ids S, p.2 = S.keyOf x.args := by
  have hcommitted : x.phase = .committed := by
    cases hp : x.phase <;> rw [hp] at hended <;> first | rfl | cases hended
  have hfits := h.fits t x hx
  simpa only [Txn.Fits, hcommitted] using hfits

theorem begun_of_step {args : α} (h : T.step S (.begin args) = some T') :
    T'.txns[T.txns.length]? = some ⟨args, .opened⟩ := by
  simp only [Table.step, Option.some.injEq] at h
  rw [← h]
  exact List.getElem?_concat_length ..

theorem sound_of_path {ok : Table ρ α → Action α ι τ → Prop} (h : Sound S T)
    (hp : (machine S).Path ok T T') : Sound S T' :=
  hp.invariant h fun _ hT _ hs => (effect_of_step hs).sound hT

theorem ids_mono_of_path {ok : Table ρ α → Action α ι τ → Prop} (h : Sound S T)
    (hp : (machine S).Path ok T T') : T.ids S <+: T'.ids S :=
  hp.relation (R := fun T T' => T.ids S <+: T'.ids S) (fun _ => List.prefix_rfl)
    List.IsPrefix.trans
    fun hp _ hs => (effect_of_step hs).ids_mono (sound_of_path h hp)

omit [DecidableEq ι] in
/-- At most one row has a given key. -/
theorem Sound.length_filter_key_le (h : Sound S T) (k : κ) :
    (T.rows.filter fun r => S.key r = k).length ≤ 1 := by
  refine Slots.length_le_one_of_pairwise
    ((List.pairwise_map.mp h.distinct).sublist List.filter_sublist) fun r hr r' hr' hne => ?_
  have hkey : ∀ q ∈ T.rows.filter fun r => S.key r = k, S.key q = k := fun q hq => by
    simpa using (List.mem_filter.mp hq).2
  exact hne.2 ((hkey r hr).trans (hkey r' hr').symm)

/-- Once committed, or once failed, a transaction stays so. -/
theorem finished_of_path {ok : Table ρ α → Action α ι τ → Prop} {x : Txn ρ α}
    (hp : (machine S).Path ok T T') (hx : T.txns[t]? = some x)
    (hfin : x.phase = .committed ∨ ∃ c, x.phase = .failed c) : T'.txns[t]? = some x := by
  refine hp.invariant (I := fun T => T.txns[t]? = some x) hx fun {U a U'} _ hU _ hs => ?_
  have he := effect_of_step hs
  by_cases hactor : t = a.txn U
  · subst hactor
    have hopen := he.unfinished hU
    rcases hfin with hc | ⟨c, hc⟩
    · exact absurd hc hopen.1
    · exact absurd hc (hopen.2 c)
  · exact he.other hactor hU

/-- **A failed transaction has changed nothing.** None of the statements of a transaction
that fails in the end changes the committed rows. -/
theorem rows_eq_of_failed {ok : Table ρ α → Action α ι τ → Prop} {x : Txn ρ α} {c : Cause}
    (hs : T.step S a = some s) (hp : (machine S).Path ok s s')
    (hx : s'.txns[a.txn T]? = some x) (hc : x.phase = .failed c) : s.rows = T.rows := by
  rcases (effect_of_step hs).rows with heq | ⟨y, hy, hcommitted⟩
  · exact heq
  · have hy' := finished_of_path hp hy (.inl hcommitted)
    rw [hx] at hy'
    cases hy'
    rw [hc] at hcommitted
    cases hcommitted

/-- A row that appears was inserted by the transaction that has just committed. -/
theorem Effect.ids_new (h : Sound S T) (he : Effect S T t T') {p : ι × κ} (hp : p ∈ T'.ids S) :
    p ∈ T.ids S ∨ ∃ x : Txn ρ α, T'.txns[t]? = some x ∧ x.phase = .committed ∧
      S.keyOf x.args = p.2 := by
  cases he with
  | began | selected | inserted | updated | failed => exact .inl hp
  | @insertCommitted x row hx hphase =>
    have hrow := h.fits _ _ hx
    simp only [Txn.Fits, hphase] at hrow
    simp only [Table.ids, List.map_append, List.map_cons, List.map_nil, List.mem_append,
      List.mem_singleton] at hp
    rcases hp with hold | hnew
    · exact .inl hold
    · refine .inr ⟨{ x with phase := .committed }, ?_, rfl, ?_⟩
      · change (T.setPhase t .committed).txns[t]? = _
        rw [getElem?_setPhase, if_pos rfl, hx]
        rfl
      · rw [hnew]; exact hrow.1.symm
  | @updateCommitted x row hx hphase =>
    have hrow := h.fits _ _ hx
    simp only [Txn.Fits, hphase] at hrow
    exact .inl ((h.ids_replace hrow.2) ▸ hp)

/-- Every row of the table was there at the start or has the key of a committed
transaction. -/
theorem rooted_of_path {ok : Table ρ α → Action α ι τ → Prop} (h : Sound S T)
    (hp : (machine S).Path ok T T') : ∀ p ∈ T'.ids S, p ∈ T.ids S ∨
      ∃ (u : ℕ) (x : Txn ρ α), T'.txns[u]? = some x ∧ x.phase = .committed ∧
        S.keyOf x.args = p.2 := by
  refine hp.invariant (I := fun U => ∀ p ∈ U.ids S, p ∈ T.ids S ∨ ∃ (u : ℕ) (x : Txn ρ α),
    U.txns[u]? = some x ∧ x.phase = .committed ∧ S.keyOf x.args = p.2)
    (fun p hp => .inl hp) fun {U a U'} hpU ih hok hs p hmem => ?_
  rcases (effect_of_step hs).ids_new (sound_of_path h hpU) hmem with hold | ⟨x, hx⟩
  · rcases ih p hold with h0 | ⟨u, x, hx, hc, hk⟩
    · exact .inl h0
    · exact .inr ⟨u, x, finished_of_path (.single hok hs) hx (.inl hc), hc, hk⟩
  · exact .inr ⟨_, x, hx⟩

/-- **An insert race has a winner.** A transaction that has committed, or has lost to the
unique key, for a key that no row had at the start, means that one of that key has
committed. -/
theorem settled_winner {ok : Table ρ α → Action α ι τ → Prop} (h : Sound S T)
    (hp : (machine S).Path ok T T') {x : Txn ρ α} (hx : x ∈ T'.txns)
    (hsettled : x.phase = .committed ∨ x.phase = .failed .uniqueKey)
    (hnone : ∀ r ∈ T.rows, S.key r ≠ S.keyOf x.args) :
    ∃ y ∈ T'.txns, y.phase = .committed ∧ S.keyOf y.args = S.keyOf x.args := by
  rcases hsettled with hc | hraced
  · exact ⟨x, hx, hc, rfl⟩
  · obtain ⟨t, ht⟩ := List.getElem?_of_mem hx
    have hfits := (sound_of_path h hp).fits t x ht
    simp only [Txn.Fits, hraced] at hfits
    obtain ⟨p, hmem, hk⟩ := hfits
    rcases rooted_of_path h hp p hmem with h0 | ⟨u, y, hy, hc, hk'⟩
    · obtain ⟨r, hr, rfl⟩ := Table.mem_ids.mp h0
      exact absurd hk (hnone r hr)
    · exact ⟨y, List.mem_of_getElem? hy, hc, hk'.trans hk⟩

/-- **No deadlock.** Either every transaction is finished, or the next statement of one of
them is enabled: a transaction waits only for one that holds an uncommitted row, and that one
is about to commit. -/
theorem progress (T : Table ρ α) (newId : ι) (now : τ) :
    (∀ x ∈ T.txns, x.phase = .committed ∨ ∃ c, x.phase = .failed c) ∨
      ∃ t, (T.advance S t newId now).isSome := by
  by_cases hheld : ∃ x ∈ T.txns, ∃ row, x.phase = .inserted row ∨ x.phase = .updated row
  · obtain ⟨x, hx, row, hrow⟩ := hheld
    obtain ⟨t, ht⟩ := List.getElem?_of_mem hx
    refine .inr ⟨t, ?_⟩
    rcases hrow with hrow | hrow <;> simp [Table.advance, ht, hrow]
  · push Not at hheld
    have hwait : ∀ row, ¬ ∃ x ∈ T.txns, x.Blocks S row := by
      rintro row ⟨x, hx, hb⟩
      cases hp : x.phase <;> simp only [Txn.Blocks, hp] at hb
      · exact (hheld x hx _).1 hp
      · exact (hheld x hx _).2 hp
    have hinsert : ∀ row, ∃ p, T.flushInsert S row = some p := fun row => by
      simp only [Table.flushInsert, hwait, if_false]
      split_ifs <;> exact ⟨_, rfl⟩
    have hupdate : ∀ args loaded, ∃ p, T.flushUpdate S args now loaded = some p :=
      fun args loaded => by
        simp only [Table.flushUpdate, hwait, if_false]
        split <;> exact ⟨_, rfl⟩
    by_cases hdone : ∀ x ∈ T.txns, x.phase = .committed ∨ ∃ c, x.phase = .failed c
    · exact .inl hdone
    · push Not at hdone
      obtain ⟨x, hx, hc, hf⟩ := hdone
      obtain ⟨t, ht⟩ := List.getElem?_of_mem hx
      refine .inr ⟨t, ?_⟩
      cases hp : x.phase with
      | opened => simp [Table.advance, ht, hp]
      | selected existing =>
        cases existing with
        | none =>
          obtain ⟨p, hflush⟩ := hinsert (S.fresh x.args newId now)
          simp [Table.advance, ht, hp, hflush]
        | some loaded =>
          obtain ⟨p, hflush⟩ := hupdate x.args loaded
          simp [Table.advance, ht, hp, hflush]
      | inserted row => exact absurd hp (hheld x hx row).1
      | updated row => exact absurd hp (hheld x hx row).2
      | committed => exact absurd hp hc
      | failed c => exact absurd hp (hf c)

/-! ## What the rows say -/

omit [DecidableEq κ] [DecidableEq ι] in
variable (A : α → Prop) (P : ρ → Prop) in
/-- Every call meets `A`, and every row meets `P`: committed, selected or uncommitted. -/
structure Table.Contents (T : Table ρ α) : Prop where
  args : ∀ x ∈ T.txns, A x.args
  rows : ∀ r ∈ T.rows, P r
  held : ∀ x ∈ T.txns, ∀ r,
    x.phase = .selected (some r) ∨ x.phase = .inserted r ∨ x.phase = .updated r → P r

variable {A A' : α → Prop} {P P' : ρ → Prop}

omit [DecidableEq κ] [DecidableEq ι] in
theorem Table.Contents.mono (h : T.Contents A P) (hA : ∀ a, A a → A' a) (hP : ∀ r, P r → P' r) :
    T.Contents A' P' where
  args x hx := hA _ (h.args x hx)
  rows r hr := hP _ (h.rows r hr)
  held x hx r hr := hP _ (h.held x hx r hr)

omit [DecidableEq κ] [DecidableEq ι] in
theorem Table.Contents.setPhase (h : T.Contents A P) {p : Phase ρ}
    (hp : ∀ r, p = .selected (some r) ∨ p = .inserted r ∨ p = .updated r → P r) :
    (T.setPhase t p).Contents A P := by
  have hget : ∀ y ∈ (T.setPhase t p).txns, ∃ x ∈ T.txns,
      y = x ∨ y = { x with phase := p } := by
    intro y hy
    obtain ⟨u, hu⟩ := List.getElem?_of_mem hy
    rw [getElem?_setPhase] at hu
    split at hu
    · obtain ⟨x, hx, rfl⟩ := Option.map_eq_some_iff.mp hu
      exact ⟨x, List.mem_of_getElem? hx, .inr rfl⟩
    · exact ⟨y, List.mem_of_getElem? hu, .inl rfl⟩
  refine ⟨?_, h.rows, ?_⟩
  · intro y hy
    obtain ⟨x, hx, rfl | rfl⟩ := hget y hy
    · exact h.args _ hx
    · exact h.args x hx
  · intro y hy r hr
    obtain ⟨x, hx, rfl | rfl⟩ := hget y hy
    · exact h.held _ hx r hr
    · exact hp r hr

/-- If the calls establish `P`, then it holds of every row through every statement. -/
theorem Effect.contents (hsound : Sound S T) (h : T.Contents A P) (he : Effect S T t T')
    (hcalls : ∀ x ∈ T'.txns, A x.args) (hfresh : ∀ a i n, A a → P (S.fresh a i n))
    (hover : ∀ a n l r, A a → P l → P r → S.key l = S.keyOf a → S.key r = S.keyOf a →
      P (S.overwrite a n l r)) : T'.Contents A P := by
  cases he with
  | began args ht =>
    refine ⟨hcalls, h.rows, ?_⟩
    intro x hx r hr
    rcases List.mem_append.mp hx with hx | hx
    · exact h.held x hx r hr
    · rw [List.mem_singleton.mp hx] at hr
      simp at hr
  | @selected x hx hp =>
    refine h.setPhase fun r hr => ?_
    simp only [Phase.selected.injEq, reduceCtorEq, or_false] at hr
    exact h.rows r (List.mem_of_find?_eq_some hr)
  | @inserted x row hx hp newId now hrow hfree hwait =>
    refine h.setPhase fun r hr => ?_
    simp only [Phase.inserted.injEq, reduceCtorEq, false_or, or_false] at hr
    rw [← hr, hrow]
    exact hfresh _ _ _ (h.args x (List.mem_of_getElem? hx))
  | @updated x loaded stored hx hp hstored hid now =>
    refine h.setPhase fun r hr => ?_
    simp only [Phase.updated.injEq, reduceCtorEq, false_or] at hr
    have hmem := List.mem_of_getElem? hx
    have hl := hsound.fits _ _ hx
    simp only [Txn.Fits, hp] at hl
    obtain ⟨q, hq, heq⟩ := Table.mem_ids.mp hl.2
    have hsame := hsound.eq_of_collides hstored hq
      (.inl (hid.trans (congrArg Prod.fst heq).symm))
    rw [← hr]
    exact hover _ _ _ _ (h.args x hmem) (h.held x hmem loaded (.inl hp)) (h.rows stored hstored)
      hl.1 ((congrArg Prod.snd hsame).trans ((congrArg Prod.snd heq).trans hl.1))
  | failed hx cause hopen hraced => exact h.setPhase fun r hr => by simp at hr
  | @insertCommitted x row hx hp =>
    have hset := h.setPhase (t := t) (p := .committed) fun r hr => by simp at hr
    refine ⟨hset.args, ?_, hset.held⟩
    intro r hr
    rcases List.mem_append.mp hr with hr | hr
    · exact h.rows r hr
    · rw [List.mem_singleton.mp hr]
      exact h.held x (List.mem_of_getElem? hx) row (.inr (.inl hp))
  | @updateCommitted x row hx hp =>
    have hset := h.setPhase (t := t) (p := .committed) fun r hr => by simp at hr
    refine ⟨hset.args, ?_, hset.held⟩
    intro r hr
    obtain ⟨r₀, hr₀, rfl⟩ := List.mem_map.mp hr
    split
    · exact h.held x (List.mem_of_getElem? hx) row (.inr (.inr hp))
    · exact h.rows r₀ hr₀

/-! ## What a key reads -/

omit [DecidableEq κ] [DecidableEq ι] in
/-- The row a transaction selected, until it flushes. -/
def Phase.loaded : Phase ρ → Option ρ
  | .selected existing => existing
  | _ => none

omit [DecidableEq κ] [DecidableEq ι] in
/-- The call that action `a` commits, with its row. -/
def Table.committing (T : Table ρ α) : Action α ι τ → Option (α × ρ)
  | .advance t _ _ => T.txns[t]?.bind fun x =>
    match x.phase with
    | .inserted row | .updated row => some (x.args, row)
    | _ => none
  | _ => none

/-- The call of key `k` that committed last when the actions are taken from `T`. -/
def Table.lastCommitted (S : Spec ρ α κ ι τ) (k : κ) (T : Table ρ α) :
    List (Action α ι τ) → Option α
  | [] => none
  | a :: as => (T.step S a).bind fun T' =>
    (lastCommitted S k T' as).or
      (((T.committing a).map Prod.fst).filter fun args => S.keyOf args = k)

omit [DecidableEq ι] in
theorem Sound.find_append (h : Sound S T) {x : Txn ρ α} {row : ρ} (hx : T.txns[t]? = some x)
    (hp : x.phase = .inserted row) (k : κ) :
    (T.rows ++ [row]).find? (fun r => S.key r = k) =
      if S.keyOf x.args = k then some row else T.find S k := by
  have hfits := h.fits t x hx
  simp only [Txn.Fits, hp] at hfits
  rw [List.find?_append, ← hfits.1]
  split
  · rename_i hk
    have hnone : T.find S k = none := by
      refine List.find?_eq_none.mpr fun r hr => ?_
      simpa [← hk] using (hfits.2 _ (Table.mem_ids.mpr ⟨r, hr, rfl⟩)).2
    rw [← Table.find, hnone]
    simp [hk]
  · rename_i hk
    rw [← Table.find]
    simp [hk]

theorem Sound.find_replace (h : Sound S T) {x : Txn ρ α} {row : ρ} (hx : T.txns[t]? = some x)
    (hp : x.phase = .updated row) (k : κ) :
    (Table.replace S T.rows row).find? (fun r => S.key r = k) =
      if S.keyOf x.args = k then some row else T.find S k := by
  have hfits := h.fits t x hx
  simp only [Txn.Fits, hp] at hfits
  obtain ⟨r₀, hr₀, heq⟩ := Table.mem_ids.mp hfits.2
  -- The version replaces the row of its key and no other.
  have hid : ∀ r ∈ T.rows, S.id r = S.id row ↔ S.key r = S.key row := by
    intro r hr
    have hsame : Collides S r r₀ → (S.id r, S.key r) = (S.id row, S.key row) :=
      fun hc => (h.eq_of_collides hr hr₀ hc).trans heq
    constructor
    · intro hi
      exact congrArg Prod.snd (hsame (.inl (hi.trans (congrArg Prod.fst heq).symm)))
    · intro hk
      exact congrArg Prod.fst (hsame (.inr (hk.trans (congrArg Prod.snd heq).symm)))
  have hfind : (T.rows.find? fun r => S.key (if S.id r = S.id row then row else r) = k) =
      T.find S k := by
    refine List.find?_congr fun r hr => ?_
    split
    · rename_i hi
      rw [(hid r hr).mp hi]
    · rfl
  rw [Table.replace, List.find?_map]
  change (T.rows.find? fun r => S.key (if S.id r = S.id row then row else r) = k).map _ = _
  rw [hfind, ← hfits.1]
  cases hf : T.find S k with
  | none =>
    have hne : S.key row ≠ k := fun hk => by
      have hsome := (Table.isSome_find S).mpr ⟨r₀, hr₀, (congrArg Prod.snd heq).trans hk⟩
      simp [hf] at hsome
    simp [hne]
  | some r =>
    obtain ⟨hr, hk⟩ := Table.find_some S hf
    simp only [Option.map_some, hid r hr, hk, eq_comm (a := k)]
    split <;> rfl

/-- **What a key reads after a statement**: the row of the call it commits, if that call is of
the key, and what it read before otherwise. -/
theorem find_of_step (h : Sound S T) {a : Action α ι τ} (hs : T.step S a = some T') (k : κ) :
    T'.find S k = match T.committing a with
      | some (args, row) => if S.keyOf args = k then some row else T.find S k
      | none => T.find S k := by
  cases a with
  | begin args =>
    simp only [Table.step, Option.some.injEq] at hs
    subst hs
    rfl
  | fail t =>
    obtain ⟨x, hx, hs⟩ := Option.bind_eq_some_iff.mp hs
    cases hp : x.phase <;> simp only [hp, Option.some.injEq, reduceCtorEq] at hs <;>
      (subst hs; rfl)
  | advance t newId now =>
    obtain ⟨x, hx, hs⟩ := Option.bind_eq_some_iff.mp hs
    simp only [Table.committing, hx, Option.bind_some]
    cases hp : x.phase with
    | opened =>
      simp only [hp, Option.some.injEq] at hs
      subst hs
      rfl
    | selected existing =>
      cases existing with
      | none | some =>
        simp only [hp] at hs
        obtain ⟨p, -, hs⟩ := Option.bind_eq_some_iff.mp hs
        cases hs
        rfl
    | inserted row =>
      simp only [hp, Option.some.injEq] at hs
      subst hs
      exact h.find_append hx hp k
    | updated row =>
      simp only [hp, Option.some.injEq] at hs
      subst hs
      exact h.find_replace hx hp k
    | committed | failed => simp [hp] at hs

/-- A statement brings a row to one key at most, and takes none away. -/
theorem isSome_find_of_step (h : Sound S T) {a : Action α ι τ} (hs : T.step S a = some T') :
    (∀ k, (T'.find S k).isSome = (T.find S k).isSome) ∨
      ∃ k₀, (T'.find S k₀).isSome = true ∧
        ∀ k, k ≠ k₀ → (T'.find S k).isSome = (T.find S k).isSome := by
  have hfind := find_of_step h hs
  cases hc : T.committing a with
  | none => exact .inl fun k => by rw [hfind, hc]
  | some c =>
    refine .inr ⟨S.keyOf c.1, ?_, fun k hk => ?_⟩
    · rw [hfind, hc]
      simp
    · rw [hfind, hc]
      simp [hk.symm]

/-! ## Whole overwrites

`P a row` says that `row` is what call `a` means to leave. An INSERT writes its whole row; an
UPDATE leaves some columns to the row stored when it is flushed, so it has to be asked of it. -/

omit [DecidableEq κ] [DecidableEq ι] in
/-- Every uncommitted row is what its call means to leave. -/
def Table.Held (P : α → ρ → Prop) (T : Table ρ α) : Prop :=
  ∀ x ∈ T.txns, ∀ row, x.phase = .inserted row ∨ x.phase = .updated row → P x.args row

omit [DecidableEq κ] [DecidableEq ι] in
theorem Table.Held.setPhase {P : α → ρ → Prop} (h : T.Held P) {x : Txn ρ α} {p : Phase ρ}
    (hx : T.txns[t]? = some x) (hp : ∀ row, p = .inserted row ∨ p = .updated row → P x.args row) :
    (T.setPhase t p).Held P := by
  intro y hy row hrow
  obtain ⟨u, hu⟩ := List.getElem?_of_mem hy
  rcases getElem?_setPhase_cases hx hu with ⟨-, rfl⟩ | ⟨-, hu⟩
  · exact hp row hrow
  · exact h y (List.mem_of_getElem? hu) row hrow

/-- What is asked of the UPDATE is asked only of the statement that flushes it. -/
theorem Table.Held.step {P : α → ρ → Prop} (h : T.Held P) {a : Action α ι τ}
    (hs : T.step S a = some T') (hfresh : ∀ a i n, P a (S.fresh a i n))
    (hflush : ∀ t newId now, a = .advance t newId now → ∀ x loaded stored n,
      T.txns[t]? = some x → x.phase = .selected (some loaded) → stored ∈ T.rows →
      S.id stored = S.id loaded → P x.args (S.overwrite x.args n loaded stored)) : T'.Held P := by
  cases a with
  | begin args =>
    simp only [Table.step, Option.some.injEq] at hs
    subst hs
    intro x hx row hrow
    rcases List.mem_append.mp hx with hx | hx
    · exact h x hx row hrow
    · rw [List.mem_singleton.mp hx] at hrow
      simp at hrow
  | fail t =>
    obtain ⟨x, hx, hs⟩ := Option.bind_eq_some_iff.mp hs
    cases hp : x.phase <;> simp only [hp, Option.some.injEq, reduceCtorEq] at hs <;>
      (subst hs; exact h.setPhase hx fun r hr => by simp at hr)
  | advance t newId now =>
    cases effect_of_advance hs with
    | began args ht =>
      obtain ⟨x, hx, -⟩ := Option.bind_eq_some_iff.mp hs
      simp [ht] at hx
    | @inserted x row hx hp newId now hrow hfree hwait =>
      refine h.setPhase hx fun r hr => ?_
      simp only [Phase.inserted.injEq, reduceCtorEq, or_false] at hr
      rw [← hr, hrow]
      exact hfresh _ _ _
    | @updated x loaded stored hx hp hstored hid n =>
      refine h.setPhase hx fun r hr => ?_
      simp only [Phase.updated.injEq, reduceCtorEq, false_or] at hr
      rw [← hr]
      exact hflush t newId now rfl x loaded stored n hx hp hstored hid
    | selected hx hp | failed hx cause hopen hraced | insertCommitted hx hp
    | updateCommitted hx hp => exact h.setPhase hx fun r hr => by simp at hr

/-- **The last commit wins whole.** If `f` reads off a row what `g` reads off the call that
is to leave it, and every UPDATE meets that when it is flushed, then a key reads the call that
committed last. -/
theorem find_of_run {β : Type} {f : ρ → β} {g : α → β} {ok : Table ρ α → Action α ι τ → Prop}
    [∀ T a, Decidable (ok T a)] {as : List (Action α ι τ)} (hsound : Sound S T)
    (hheld : T.Held fun a row => f row = g a) (hrun : (machine S).runIf ok T as = some T')
    (hfresh : ∀ a i n, f (S.fresh a i n) = g a)
    (hflush : ∀ (T : Table ρ α) t newId now, ok T (.advance t newId now) → ∀ x loaded stored n,
      T.txns[t]? = some x → x.phase = .selected (some loaded) → stored ∈ T.rows →
      S.id stored = S.id loaded → f (S.overwrite x.args n loaded stored) = g x.args) (k : κ) :
    (T'.find S k).map f = ((T.lastCommitted S k as).map g).or ((T.find S k).map f) := by
  induction as generalizing T with
  | nil =>
    cases hrun
    rfl
  | cons a as ih =>
    simp only [Machine.runIf] at hrun
    split at hrun
    · rename_i hok
      obtain ⟨U, hU, hrun⟩ := Option.bind_eq_some_iff.mp hrun
      have hstep := find_of_step hsound hU k
      have hheld' := hheld.step hU hfresh fun t newId now ha => hflush T t newId now (ha ▸ hok)
      rw [ih ((effect_of_step hU).sound hsound) hheld' hrun]
      simp only [Table.lastCommitted, show T.step S a = some U from hU, Option.bind_some]
      cases hc : T.committing a with
      | none => simp [hstep, hc]
      | some call =>
        have hcall : f call.2 = g call.1 := by
          cases a with
          | advance t newId now =>
            obtain ⟨x, hx, hp⟩ := Option.bind_eq_some_iff.mp hc
            cases hphase : x.phase <;> simp only [hphase, Option.some.injEq, reduceCtorEq] at hp
            all_goals
              subst hp
              exact hheld x (List.mem_of_getElem? hx) _ (by simp [hphase])
          | begin | fail => cases hc
        cases hlast : Table.lastCommitted S k U as with
        | none => by_cases hk : S.keyOf call.1 = k <;> simp [hstep, hc, hk, hcall, Option.filter]
        | some => rfl
    · cases hrun

end

end Upsert

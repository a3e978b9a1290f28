import Mathlib.Logic.Basic

/-!
# Write-back of dirty columns

A session loads a row, assigns columns of the loaded instance and writes it back. The UPDATE
names only the columns whose assigned value differs from the loaded one, so a column assigned
the value it was loaded with is not written: whatever is stored in it by then stays.
-/

namespace WriteBack

variable {α : Type*} [DecidableEq α]

/-- The column after the UPDATE, from the value loaded, the value assigned and the value
stored when the UPDATE runs. -/
def column (loaded assigned stored : α) : α := if assigned = loaded then stored else assigned

variable {loaded assigned stored : α}

@[simp] theorem column_self : column loaded loaded stored = stored := if_pos rfl

theorem map_column_self (o : Option α) : o.map (column loaded loaded) = o := by
  cases o with
  | none => rfl
  | some stored => exact congrArg some column_self

theorem column_of_ne (h : assigned ≠ loaded) : column loaded assigned stored = assigned :=
  if_neg h

/-- **When a write takes effect.** The stored value is the assigned one afterwards exactly
when the column was dirty or the value was stored already. -/
theorem column_eq_assigned_iff :
    column loaded assigned stored = assigned ↔ loaded ≠ assigned ∨ stored = assigned := by
  unfold column
  by_cases h : assigned = loaded
  · simp [h]
  · simp [h, Ne.symm h]

/-- A write-back leaves the column alone or writes the value assigned. -/
theorem column_eq_or : column loaded assigned stored = stored ∨
    column loaded assigned stored = assigned ∧ assigned ≠ loaded := by
  unfold column
  by_cases h : assigned = loaded
  · exact .inl (if_pos h)
  · exact .inr ⟨if_neg h, h⟩

end WriteBack

import Mathlib.Data.List.Lex
import Mathlib.Data.Prod.Lex
import Mathlib.Data.String.Basic
import ReportTriage.Lib.KeyOrder
import ReportTriage.Schema

/-!
# What is stored of a request

Not everything is read back as it was posted. A `varchar` drops spaces beyond its last character.
A `jsonb` keeps the entries of an object by the length of their keys in UTF-8, then by the keys,
and its numbers have no exponent and no sign of zero: a float that is printed with a positive
exponent comes back as an integer. What is read back is stored again as it is.

## Main definitions

* `PyVal.stored`, `Metadata.stored`, `ReportCreateRequest.stored` — what is read back.
* `Metadata.get_stored` — every entry is there, with its value as it is stored.
* `ReportCreateRequest.stored_stored` — it is stored again as it is.
-/

namespace ReportTriage

/-! ## Texts -/

/-- A text in a `varchar(n)` that takes it. -/
def cutSpaces (n : ℕ) (s : String) : String :=
  if (s.toList.drop n).all (· = ' ') then String.ofList (s.toList.take n) else s

theorem cutSpaces_of_length {n : ℕ} {s : String} (h : s.toList.length ≤ n) : cutSpaces n s = s := by
  rw [cutSpaces, List.drop_of_length_le h, List.take_of_length_le h, String.ofList_toList]
  rfl

theorem cutSpaces_cutSpaces (n : ℕ) (s : String) : cutSpaces n (cutSpaces n s) = cutSpaces n s := by
  by_cases h : ((s.toList.drop n).all (· = ' ')) = true
  · refine cutSpaces_of_length ?_
    rw [cutSpaces, if_pos h, String.toList_ofList]
    exact List.length_take_le ..
  · have hkept : cutSpaces n s = s := if_neg h
    rw [hkept, hkept]

/-! ## Objects -/

/-- The order of the keys of a `jsonb` object. -/
def keyRank (key : String) : ℕ ×ₗ String := toLex (key.utf8ByteSize, key)

theorem keyRank_injective : Function.Injective keyRank := fun _ _ h =>
  (Prod.mk.inj (toLex.injective h)).2

/-- A number in decimal digits. -/
def decimal (digits : List Char) : ℕ := digits.foldl (fun n c => 10 * n + (c.toNat - '0'.toNat)) 0

/-- What is read back of a float. At least `10 ^ 16` it is printed with an exponent, and no digit
of it is behind the point. -/
def numeric (repr : String) : PyVal :=
  let mantissa := repr.toList.takeWhile (· ≠ 'e')
  match repr.toList.dropWhile (· ≠ 'e') with
  | 'e' :: '+' :: exponent =>
    let fraction := (mantissa.dropWhile (· ≠ '.')).drop 1
    let n := decimal (mantissa.filter Char.isDigit) * 10 ^ (decimal exponent - fraction.length)
    .int (if mantissa.head? = some '-' then -n else n)
  | _ => .float (if repr = "-0.0" then "0.0" else repr)

mutual
def PyVal.stored : PyVal → PyVal
  | .none => .none
  | .bool b => .bool b
  | .int n => .int n
  | .float repr => numeric repr
  | .str s => .str s
  | .list items => .list (storedItems items)
  | .dict entries => .dict (KeyOrder.sort keyRank (storedEntries entries))

def storedItems : List PyVal → List PyVal
  | [] => []
  | v :: items => v.stored :: storedItems items

def storedEntries : Metadata → Metadata
  | [] => []
  | (k, v) :: entries => (k, v.stored) :: storedEntries entries
end

/-- An object in a `jsonb`. -/
def Metadata.stored (m : Metadata) : Metadata := KeyOrder.sort keyRank (storedEntries m)

/-- What the columns hold of a request that they take. -/
def ReportCreateRequest.stored (r : ReportCreateRequest) : ReportCreateRequest :=
  { r with
    reporterId := cutSpaces 64 r.reporterId
    targetId := cutSpaces 64 r.targetId
    metadata := Metadata.stored r.metadata }

theorem storedEntries_eq_map (m : Metadata) :
    storedEntries m = m.map (Prod.map id PyVal.stored) := by
  induction m with
  | nil => rfl
  | cons e m ih => rw [storedEntries, ih]; rfl

/-- Entries with different keys are all kept. -/
theorem Metadata.get_stored {m : Metadata} (h : (m.map Prod.fst).Nodup) (key : String) :
    (Metadata.stored m).get key = (m.get key).map PyVal.stored := by
  have hkeys : ((storedEntries m).map Prod.fst).Nodup := by
    rw [storedEntries_eq_map, List.map_map]
    exact h
  rw [Metadata.stored, Metadata.get, KeyOrder.lookup_sort hkeys, storedEntries_eq_map, Metadata.get]
  clear h hkeys
  induction m with
  | nil => rfl
  | cons e m ih =>
    rw [List.map_cons, Prod.map_apply', List.lookup_cons, List.lookup_cons, ih]
    cases h : key == e.1 <;> simp [h]

/-! ## What is read back is stored as it is -/

theorem stored_numeric (repr : String) : (numeric repr).stored = numeric repr := by
  have hzero : numeric "0.0" = .float "0.0" := rfl
  rw [numeric]
  split
  · rw [PyVal.stored]
  · rename_i hplain
    by_cases h : repr = "-0.0"
    · rw [if_pos h, PyVal.stored, hzero]
    · rw [if_neg h, PyVal.stored, numeric]
      split
      · rename_i exponent heq
        exact absurd heq (hplain exponent)
      · rw [if_neg h]

mutual
theorem stored_stored : (v : PyVal) → v.stored.stored = v.stored
  | .none | .bool _ | .int _ | .str _ => by simp only [PyVal.stored]
  | .float repr => by rw [PyVal.stored, stored_numeric]
  | .list items => by rw [PyVal.stored, PyVal.stored, storedItems_storedItems items]
  | .dict entries => by
    rw [PyVal.stored, PyVal.stored, storedEntries_eq_map (KeyOrder.sort ..), ← KeyOrder.sort_map,
      ← storedEntries_eq_map, storedEntries_storedEntries entries,
      KeyOrder.sort_sort keyRank_injective]

theorem storedItems_storedItems :
    (items : List PyVal) → storedItems (storedItems items) = storedItems items
  | [] => rfl
  | v :: items => by
    rw [storedItems, storedItems, stored_stored v, storedItems_storedItems items]

theorem storedEntries_storedEntries :
    (entries : Metadata) → storedEntries (storedEntries entries) = storedEntries entries
  | [] => rfl
  | (k, v) :: entries => by
    rw [storedEntries, storedEntries, stored_stored v, storedEntries_storedEntries entries]
end

theorem ReportCreateRequest.stored_stored (r : ReportCreateRequest) :
    r.stored.stored = r.stored := by
  have hmetadata := ReportTriage.stored_stored (.dict r.metadata)
  rw [PyVal.stored, PyVal.stored, PyVal.dict.injEq] at hmetadata
  simp only [stored, cutSpaces_cutSpaces, Metadata.stored, hmetadata]

end ReportTriage

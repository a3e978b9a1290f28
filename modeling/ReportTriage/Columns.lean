import Mathlib.Data.List.Basic
import Mathlib.Tactic.Common
import ReportTriage.Stored

/-!
# What the columns hold

A `str` is a sequence of code points, and `json.loads` leaves a surrogate in it that stands alone.
The driver sends texts in UTF-8, where a surrogate has no encoding. Postgres stores no NUL, and
no text of more than `n` characters in a `varchar(n)`, except that it drops spaces beyond the
`n`-th. A JSON document is sent with escapes, of which a high and a low surrogate in sequence make
one character; a NUL, a surrogate left over and a number that is not finite are refused.

## Main definitions

* `CodePoint`, `PyText`, `JsonVal` — what a request holds.
* `textValue`, `varcharValue`, `jsonbValue` — what a column holds of it, if it takes it.
* `FitsText`, `FitsVarchar`, `FitsJsonb` — when it does.
* `PyVal.json`, `jsonb_json` — a value without surrogates, and what is held of it.
-/

namespace ReportTriage

/-! ## Texts and JSON values -/

/-- A code point of a `str`. The surrogates are numbered from U+D800; the first 1024 are high. -/
inductive CodePoint
  | char (c : Char)
  | surrogate (n : Fin 2048)
  deriving DecidableEq, Repr

abbrev PyText : Type := List CodePoint

def pyText (s : String) : PyText := s.toList.map .char

/-- What `json.loads` makes of a document. -/
inductive JsonVal
  | null
  | bool (b : Bool)
  | int (n : ℤ)
  /-- By the text Python prints for it. -/
  | float (repr : String)
  | str (s : PyText)
  | list (items : List JsonVal)
  | dict (entries : List (PyText × JsonVal))

abbrev JsonObject : Type := List (PyText × JsonVal)

/-- The limits of a server on the size of a field and on the depth and size of a document, and
that of the recursion of `json.dumps`, which writes the document. -/
class PostgresLimits where
  textFits : PyText → Bool
  jsonbFits : JsonObject → Bool
  textFits_of_length : ∀ s : PyText, s.length ≤ 64 → textFits s = true
  jsonbFits_of_length : ∀ entries : JsonObject, entries.length ≤ 64 →
    (∀ e ∈ entries, e.1.length ≤ 64 ∧ ∃ s : PyText, e.2 = .str s ∧ s.length ≤ 64) →
    jsonbFits entries = true

/-! ## Values -/

def nul : Char := Char.ofNat 0

/-- The character a code point is stored as. -/
def CodePoint.stored : CodePoint → Option Char
  | .char c => if c = nul then none else some c
  | .surrogate _ => none

/-- What a `text` column holds. -/
def textValue [PostgresLimits] (s : PyText) : Option String :=
  if PostgresLimits.textFits s then (s.mapM CodePoint.stored).map String.ofList else none

/-- What a `varchar(n)` column holds. -/
def varcharValue [PostgresLimits] (n : ℕ) (s : PyText) : Option String :=
  (textValue s).bind fun t =>
    if (t.toList.drop n).all (· = ' ') then some (String.ofList (t.toList.take n)) else none

/-- The code points of a text after its escapes are read. -/
def pairSurrogates : PyText → PyText
  | .surrogate high :: .surrogate low :: s =>
    if high.val < 1024 ∧ 1024 ≤ low.val then
      .char (Char.ofNat (0x10000 + high.val * 1024 + (low.val - 1024))) :: pairSurrogates s
    else .surrogate high :: pairSurrogates (.surrogate low :: s)
  | c :: s => c :: pairSurrogates s
  | [] => []

/-- A text within a document. -/
def jsonText (s : PyText) : Option String :=
  ((pairSurrogates s).mapM CodePoint.stored).map String.ofList

/-- What Python prints for the floats that are not numbers of JSON. -/
def nonFinite : List String := ["nan", "inf", "-inf"]

/-- The digits of the longest integer that is printed. -/
def maxStrDigits : ℕ := 4300

mutual
/-- A value within a document. -/
def JsonVal.jsonb : JsonVal → Option PyVal
  | .null => some .none
  | .bool b => some (.bool b)
  | .int n => if (Nat.toDigits 10 n.natAbs).length ≤ maxStrDigits then some (.int n) else none
  | .float repr => if repr ∈ nonFinite then none else some (numeric repr)
  | .str s => (jsonText s).map .str
  | .list items => (jsonbItems items).map .list
  | .dict entries => (jsonbEntries entries).map fun entries =>
      .dict (KeyOrder.sort keyRank entries)

def jsonbItems : List JsonVal → Option (List PyVal)
  | [] => some []
  | v :: items => v.jsonb.bind fun v => (jsonbItems items).map (v :: ·)

def jsonbEntries : List (PyText × JsonVal) → Option Metadata
  | [] => some []
  | (k, v) :: entries => (jsonText k).bind fun k => v.jsonb.bind fun v =>
      (jsonbEntries entries).map ((k, v) :: ·)
end

/-- What a `jsonb` column holds of an object. -/
def jsonbValue [PostgresLimits] (entries : JsonObject) : Option Metadata :=
  if PostgresLimits.jsonbFits entries then (jsonbEntries entries).map (KeyOrder.sort keyRank)
  else none

/-! ## When a column takes a value -/

/-- No NUL and no surrogate. -/
def Writable (s : PyText) : Prop := ∀ c ∈ s, ∃ x : Char, c = .char x ∧ x ≠ nul

def FitsText [PostgresLimits] (s : PyText) : Prop := Writable s ∧ PostgresLimits.textFits s = true

/-- At most `n` characters, or spaces beyond. -/
def FitsVarchar [PostgresLimits] (n : ℕ) (s : PyText) : Prop :=
  FitsText s ∧ ∀ c ∈ s.drop n, c = .char ' '

mutual
/-- Every text in it is writable once its escapes are read, and every number finite. -/
def JsonVal.Writable : JsonVal → Prop
  | .null | .bool _ => True
  | .int n => (Nat.toDigits 10 n.natAbs).length ≤ maxStrDigits
  | .float repr => repr ∉ nonFinite
  | .str s => ReportTriage.Writable (pairSurrogates s)
  | .list items => WritableItems items
  | .dict entries => WritableEntries entries

def WritableItems : List JsonVal → Prop
  | [] => True
  | v :: items => v.Writable ∧ WritableItems items

def WritableEntries : List (PyText × JsonVal) → Prop
  | [] => True
  | (k, v) :: entries =>
    ReportTriage.Writable (pairSurrogates k) ∧ v.Writable ∧ WritableEntries entries
end

def FitsJsonb [PostgresLimits] (entries : JsonObject) : Prop :=
  WritableEntries entries ∧ PostgresLimits.jsonbFits entries = true

theorem isSome_stored {c : CodePoint} :
    c.stored.isSome = true ↔ ∃ x : Char, c = .char x ∧ x ≠ nul := by
  cases c with
  | char x => by_cases hx : x = nul <;> simp [CodePoint.stored, hx]
  | surrogate n => simp [CodePoint.stored]

theorem isSome_mapM_stored {s : PyText} :
    (s.mapM CodePoint.stored).isSome = true ↔ Writable s := by
  induction s with
  | nil => simp [Writable]
  | cons c s ih =>
    rw [Writable, List.forall_mem_cons, ← isSome_stored, ← Writable, ← ih, List.mapM_cons]
    cases c.stored <;> cases s.mapM CodePoint.stored <;> simp

/-- A text that is stored has a character for each code point. -/
theorem of_mapM_stored {s : PyText} {t : List Char} (h : s.mapM CodePoint.stored = some t) :
    s = t.map .char := by
  induction s generalizing t with
  | nil =>
    cases h
    rfl
  | cons c s ih =>
    rw [List.mapM_cons] at h
    obtain ⟨x, hx, h⟩ := Option.bind_eq_some_iff.mp h
    obtain ⟨xs, hxs, h⟩ := Option.bind_eq_some_iff.mp h
    cases h
    rw [List.map_cons, ← ih hxs]
    cases c with
    | char y =>
      simp only [CodePoint.stored] at hx
      split at hx <;> cases hx
      rfl
    | surrogate n => cases hx

theorem isSome_jsonText {s : PyText} :
    (jsonText s).isSome = true ↔ Writable (pairSurrogates s) := by
  rw [jsonText, Option.isSome_map, isSome_mapM_stored]

mutual
theorem isSome_jsonb : (v : JsonVal) → (v.jsonb.isSome = true ↔ v.Writable)
  | .null => by simp [JsonVal.jsonb, JsonVal.Writable]
  | .bool _ => by simp [JsonVal.jsonb, JsonVal.Writable]
  | .int n => by
    rw [JsonVal.jsonb, JsonVal.Writable]
    split <;> simp_all
  | .float repr => by
    rw [JsonVal.jsonb, JsonVal.Writable]
    split <;> simp_all
  | .str s => by rw [JsonVal.jsonb, JsonVal.Writable, Option.isSome_map, isSome_jsonText]
  | .list items => by
    rw [JsonVal.jsonb, JsonVal.Writable, Option.isSome_map, isSome_jsonbItems items]
  | .dict entries => by
    rw [JsonVal.jsonb, JsonVal.Writable, Option.isSome_map, isSome_jsonbEntries entries]

theorem isSome_jsonbItems :
    (items : List JsonVal) → ((jsonbItems items).isSome = true ↔ WritableItems items)
  | [] => by simp [jsonbItems, WritableItems]
  | v :: items => by
    rw [jsonbItems, WritableItems, ← isSome_jsonb v, ← isSome_jsonbItems items]
    cases v.jsonb <;> simp

theorem isSome_jsonbEntries : (entries : List (PyText × JsonVal)) →
    ((jsonbEntries entries).isSome = true ↔ WritableEntries entries)
  | [] => by simp [jsonbEntries, WritableEntries]
  | (k, v) :: entries => by
    rw [jsonbEntries, WritableEntries, ← isSome_jsonb v, ← isSome_jsonbEntries entries,
      ← isSome_jsonText]
    cases jsonText k <;> cases v.jsonb <;> simp
end

/-- A value is taken if it is within a limit and can be written. -/
theorem isSome_within {α : Type} {limit : Bool} {value : Option α} :
    (if limit then value else none).isSome = true ↔ value.isSome = true ∧ limit = true := by
  cases limit <;> simp

section
variable [PostgresLimits]

theorem isSome_textValue {s : PyText} : (textValue s).isSome = true ↔ FitsText s := by
  rw [textValue, FitsText, isSome_within, Option.isSome_map, isSome_mapM_stored]

/-- A text that is held has a character for each code point. -/
theorem of_textValue {s : PyText} {t : String} (h : textValue s = some t) : s = pyText t := by
  rw [textValue] at h
  split at h
  · obtain ⟨chars, hchars, rfl⟩ := Option.map_eq_some_iff.mp h
    rw [pyText, String.toList_ofList]
    exact of_mapM_stored hchars
  · cases h

theorem isSome_varcharValue {n : ℕ} {s : PyText} :
    (varcharValue n s).isSome = true ↔ FitsVarchar n s := by
  rw [varcharValue, FitsVarchar, ← isSome_textValue]
  cases htext : textValue s with
  | none => simp
  | some t =>
    have hspaces : (∀ c ∈ s.drop n, c = .char ' ') ↔ (t.toList.drop n).all (· = ' ') = true := by
      rw [of_textValue htext, pyText, ← List.map_drop, List.forall_mem_map]
      simp
    rw [Option.bind_some, isSome_within, hspaces, Option.isSome_some, Option.isSome_some]

theorem isSome_jsonbValue {entries : JsonObject} :
    (jsonbValue entries).isSome = true ↔ FitsJsonb entries := by
  rw [jsonbValue, FitsJsonb, isSome_within, Option.isSome_map, isSome_jsonbEntries]

end

/-! ## Values of characters

A text without surrogates is a `String`, and a column that takes it holds what is stored of it. -/

mutual
/-- A value of characters, as `json.loads` makes it. -/
def PyVal.json : PyVal → JsonVal
  | .none => .null
  | .bool b => .bool b
  | .int n => .int n
  | .float repr => .float repr
  | .str s => .str (pyText s)
  | .list items => .list (jsonItems items)
  | .dict entries => .dict (jsonEntries entries)

def jsonItems : List PyVal → List JsonVal
  | [] => []
  | v :: items => v.json :: jsonItems items

def jsonEntries : Metadata → JsonObject
  | [] => []
  | (k, v) :: entries => (pyText k, v.json) :: jsonEntries entries
end

theorem map_char_injective : Function.Injective (List.map CodePoint.char) :=
  List.map_injective_iff.mpr fun _ _ h => CodePoint.char.inj h

theorem pyText_injective : Function.Injective pyText := by
  intro s t h
  exact String.toList_inj.mp (map_char_injective h)

theorem lookup_jsonEntries (fields : Metadata) (loc : String) :
    (jsonEntries fields).lookup (pyText loc) = (fields.get loc).map PyVal.json := by
  induction fields with
  | nil => rfl
  | cons entry fields ih =>
    obtain ⟨k, v⟩ := entry
    rw [Metadata.get] at ih ⊢
    rw [jsonEntries, List.lookup_cons, List.lookup_cons]
    by_cases hk : loc = k
    · subst hk
      simp
    · have hne : (pyText loc == pyText k) = false := by
        simpa using fun h => hk (pyText_injective h)
      have hne' : (loc == k) = false := by simpa using hk
      rw [hne, hne']
      exact ih

theorem pairSurrogates_pyText (s : String) : pairSurrogates (pyText s) = pyText s := by
  rw [pyText]
  induction s.toList with
  | nil => rfl
  | cons c t ih =>
    rw [List.map_cons, pairSurrogates, ih]
    nofun

theorem mapM_stored_pyText {s : String} (h : Writable (pyText s)) :
    (pyText s).mapM CodePoint.stored = some s.toList := by
  obtain ⟨t, ht⟩ := Option.isSome_iff_exists.mp (isSome_mapM_stored.mpr h)
  rw [ht, map_char_injective (of_mapM_stored ht)]

theorem jsonText_pyText {s : String} (h : Writable (pyText s)) : jsonText (pyText s) = some s := by
  rw [jsonText, pairSurrogates_pyText, mapM_stored_pyText h, Option.map_some, String.ofList_toList]

theorem pairSurrogates_of_writable {s : PyText} (h : Writable s) : pairSurrogates s = s := by
  obtain ⟨t, ht⟩ := Option.isSome_iff_exists.mp (isSome_mapM_stored.mpr h)
  have hchars : s = pyText (String.ofList t) := by
    rw [of_mapM_stored ht, pyText, String.toList_ofList]
  rw [hchars, pairSurrogates_pyText]

mutual
theorem jsonb_json : (v : PyVal) → v.json.Writable → v.json.jsonb = some v.stored
  | .none, _ => by rw [PyVal.json, JsonVal.jsonb, PyVal.stored]
  | .bool b, _ => by rw [PyVal.json, JsonVal.jsonb, PyVal.stored]
  | .int n, h => by
    rw [PyVal.json, JsonVal.Writable] at h
    rw [PyVal.json, JsonVal.jsonb, if_pos h, PyVal.stored]
  | .float repr, h => by
    rw [PyVal.json, JsonVal.Writable] at h
    rw [PyVal.json, JsonVal.jsonb, if_neg h, PyVal.stored]
  | .str s, h => by
    rw [PyVal.json, JsonVal.Writable, pairSurrogates_pyText] at h
    rw [PyVal.json, JsonVal.jsonb, jsonText_pyText h, Option.map_some, PyVal.stored]
  | .list items, h => by
    rw [PyVal.json, JsonVal.Writable] at h
    rw [PyVal.json, JsonVal.jsonb, jsonbItems_jsonItems items h, Option.map_some, PyVal.stored]
  | .dict entries, h => by
    rw [PyVal.json, JsonVal.Writable] at h
    rw [PyVal.json, JsonVal.jsonb, jsonbEntries_jsonEntries entries h, Option.map_some,
      PyVal.stored]

theorem jsonbItems_jsonItems : (items : List PyVal) → WritableItems (jsonItems items) →
    jsonbItems (jsonItems items) = some (storedItems items)
  | [], _ => rfl
  | v :: items, h => by
    rw [jsonItems, WritableItems] at h
    rw [jsonItems, jsonbItems, jsonb_json v h.1, jsonbItems_jsonItems items h.2]
    rfl

theorem jsonbEntries_jsonEntries : (entries : Metadata) → WritableEntries (jsonEntries entries) →
    jsonbEntries (jsonEntries entries) = some (storedEntries entries)
  | [], _ => rfl
  | (k, v) :: entries, h => by
    rw [jsonEntries, WritableEntries, pairSurrogates_pyText] at h
    rw [jsonEntries, jsonbEntries, jsonText_pyText h.1, jsonb_json v h.2.1,
      jsonbEntries_jsonEntries entries h.2.2]
    rfl
end

section
variable [PostgresLimits]

theorem textValue_pyText {s : String} (h : FitsText (pyText s)) :
    textValue (pyText s) = some s := by
  rw [textValue, if_pos h.2, mapM_stored_pyText h.1, Option.map_some, String.ofList_toList]

theorem varcharValue_pyText {n : ℕ} {s : String} (h : FitsVarchar n (pyText s)) :
    varcharValue n (pyText s) = some (cutSpaces n s) := by
  have hspaces : (s.toList.drop n).all (· = ' ') = true := by
    have hdrop := h.2
    rw [pyText, ← List.map_drop, List.forall_mem_map] at hdrop
    simpa using hdrop
  rw [varcharValue, textValue_pyText h.1, Option.bind_some, if_pos hspaces, cutSpaces,
    if_pos hspaces]

/-- A text that is no longer than the column fits it if it is a text at all. -/
theorem fitsVarchar_of_length {n : ℕ} {s : String} (h : FitsText (pyText s))
    (hlength : s.toList.length ≤ n) : FitsVarchar n (pyText s) := by
  refine ⟨h, ?_⟩
  rw [List.drop_of_length_le (by rwa [pyText, List.length_map])]
  rintro c ⟨⟩

theorem jsonbValue_jsonEntries {entries : Metadata} (h : FitsJsonb (jsonEntries entries)) :
    jsonbValue (jsonEntries entries) = some (Metadata.stored entries) := by
  rw [jsonbValue, if_pos h.2, jsonbEntries_jsonEntries entries h.1, Option.map_some,
    Metadata.stored]

end

end ReportTriage

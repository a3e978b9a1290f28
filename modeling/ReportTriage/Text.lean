import Mathlib.Data.List.Infix
import Mathlib.Tactic.NormNum
import ReportTriage.Schema

/-!
# Python text

The string operations the rules use: `str`, `str.lower` and substring tests. The character
tables of the interpreter are a parameter; the laws ask of them only what they say of ASCII
and of the Hangul syllables, the two scripts the keywords are written in.
-/

namespace ReportTriage

/-- The character tables of the Python interpreter. -/
class UnicodeData where
  /-- Full lowercase mapping of every character but capital sigma. -/
  lowerMapping : Char → List Char
  isCased : Char → Bool
  isCaseIgnorable : Char → Bool
  isPrintable : Char → Bool
  lower_ascii : ∀ c : Char, c.toNat < 128 → lowerMapping c = [c.toLower]
  lower_hangul : ∀ c : Char, 0xAC00 ≤ c.toNat → c.toNat ≤ 0xD7A3 → lowerMapping c = [c]
  space_uncased : isCased ' ' = false ∧ isCaseIgnorable ' ' = false

/-- Tables that know of no character beyond ASCII. -/
@[reducible] def asciiUnicode : UnicodeData where
  lowerMapping c := if c.toNat < 128 then [c.toLower] else [c]
  isCased c := c.isAlpha
  isCaseIgnorable _ := false
  isPrintable c := 32 ≤ c.toNat && c.toNat != 127
  lower_ascii _ h := if_pos h
  lower_hangul _ h _ := if_neg (by omega)
  space_uncased := by decide

variable [UnicodeData]
open UnicodeData

/-! ## `str.lower` -/

/-- The first character that is not case-ignorable is a cased one. -/
def meetsCased (text : List Char) : Bool :=
  match text.dropWhile isCaseIgnorable with
  | [] => false
  | c :: _ => isCased c

/-- One character lowered. Capital sigma is final after a cased character and before none. -/
def lowerChar (before after : List Char) (c : Char) : List Char :=
  if c = 'Σ' then (if meetsCased before && !meetsCased after then ['ς'] else ['σ'])
  else lowerMapping c

/-- `before` is the text already read, last character first. -/
def lowerFrom (before : List Char) : List Char → List Char
  | [] => []
  | c :: rest => lowerChar before rest c ++ lowerFrom (c :: before) rest

/-- `s.lower()`. -/
def lower (s : String) : String := String.ofList (lowerFrom [] s.toList)

/-! A space is neither cased nor case-ignorable, so no sigma is lowered with regard to what lies
beyond one; hence texts joined by spaces are lowered one by one. -/

theorem meetsCased_cons (c : Char) (text : List Char) :
    meetsCased (c :: text) = if isCaseIgnorable c then meetsCased text else isCased c := by
  rw [meetsCased, List.dropWhile_cons]
  split_ifs <;> rfl

theorem meetsCased_append_space (text rest : List Char) :
    meetsCased (text ++ ' ' :: rest) = meetsCased text := by
  induction text with
  | nil => simp [meetsCased, space_uncased]
  | cons c text ih => rw [List.cons_append, meetsCased_cons, meetsCased_cons, ih]

theorem lowerChar_space (before after : List Char) : lowerChar before after ' ' = [' '] :=
  lower_ascii ' ' (by decide)

theorem lowerFrom_append_space (before : List Char) (a b : List Char) :
    lowerFrom before (a ++ ' ' :: b) =
      lowerFrom before a ++ ' ' :: lowerFrom (' ' :: (a.reverse ++ before)) b := by
  induction a generalizing before with
  | nil => simp [lowerFrom, lowerChar_space]
  | cons c a ih =>
    simp [lowerFrom, lowerChar, meetsCased_append_space, ih]

theorem lowerFrom_space_append (before rest text : List Char) :
    lowerFrom (before ++ ' ' :: rest) text = lowerFrom before text := by
  induction text generalizing before with
  | nil => rfl
  | cons c text ih =>
    rw [lowerFrom, lowerFrom, ← List.cons_append, ih]
    simp only [lowerChar, meetsCased_append_space]

theorem toList_lower (s : String) : (lower s).toList = lowerFrom [] s.toList :=
  String.toList_ofList

theorem lower_append_space (a b : String) :
    (lower (a ++ " " ++ b)).toList = (lower a).toList ++ ' ' :: (lower b).toList := by
  have hjoint : (a ++ " " ++ b).toList = a.toList ++ ' ' :: b.toList := by simp
  have hfresh := lowerFrom_space_append [] (a.toList.reverse ++ []) b.toList
  rw [List.nil_append] at hfresh
  rw [toList_lower, hjoint, lowerFrom_append_space, hfresh, toList_lower, toList_lower]

theorem lower_intercalate (texts : List String) :
    (lower (" ".intercalate texts)).toList =
      [' '].intercalate (texts.map fun t => (lower t).toList) := by
  induction texts with
  | nil => simp [toList_lower, lowerFrom]
  | cons a texts ih =>
    cases texts with
    | nil => simp
    | cons b texts =>
      rw [String.intercalate_cons_cons, lower_append_space, ih]
      simp

/-- A character every table lowers to itself, and nothing else to it but a capital ASCII letter. -/
def IsPlain (c : Char) : Prop :=
  c.toNat < 128 ∧ c.toLower = c ∨ 0xAC00 ≤ c.toNat ∧ c.toNat ≤ 0xD7A3

instance : DecidablePred IsPlain := fun c => by unfold IsPlain; infer_instance

omit [UnicodeData] in
theorem IsPlain.ne_sigma {c : Char} (h : IsPlain c) : c ≠ 'Σ' ∧ c ≠ 'σ' ∧ c ≠ 'ς' := by
  refine ⟨?_, ?_, ?_⟩ <;> rintro rfl <;> revert h <;> decide

theorem IsPlain.lowerMapping {c : Char} (h : IsPlain c) : lowerMapping c = [c] := by
  rcases h with ⟨hascii, hlow⟩ | ⟨hlo, hhi⟩
  · rw [lower_ascii c hascii, hlow]
  · exact lower_hangul c hlo hhi

theorem lowerFrom_plain (before : List Char) {text : List Char} (h : ∀ c ∈ text, IsPlain c) :
    lowerFrom before text = text := by
  induction text generalizing before with
  | nil => rfl
  | cons c text ih =>
    obtain ⟨hc, htext⟩ := List.forall_mem_cons.mp h
    rw [lowerFrom, lowerChar, if_neg hc.ne_sigma.1, hc.lowerMapping, ih _ htext]
    rfl

/-- A text of plain characters is lowered to itself. -/
theorem lower_plain {s : String} (h : ∀ c ∈ s.toList, IsPlain c) : lower s = s := by
  rw [lower, lowerFrom_plain [] h, String.ofList_toList]

/-! What follows a text changes nothing in its lowering but the form of sigmas. -/

/-- One letter for both forms of the small sigma. -/
def mergeSigma (c : Char) : Char := if c = 'ς' then 'σ' else c

theorem mergeSigma_lowerChar (before before' after after' : List Char) (c : Char) :
    (lowerChar before after c).map mergeSigma = (lowerChar before' after' c).map mergeSigma := by
  unfold lowerChar
  split
  · split <;> split <;> rfl
  · rfl

theorem mergeSigma_lowerFrom_append (before a b : List Char) :
    (lowerFrom before (a ++ b)).map mergeSigma =
      (lowerFrom before a).map mergeSigma ++
        (lowerFrom (a.reverse ++ before) b).map mergeSigma := by
  induction a generalizing before with
  | nil => simp [lowerFrom]
  | cons c a ih =>
    simp only [List.cons_append, lowerFrom, List.map_append, ih, List.append_assoc,
      List.reverse_cons, List.nil_append]
    rw [mergeSigma_lowerChar before before (a ++ b) a]

omit [UnicodeData] in
theorem eq_of_mergeSigma {n k : List Char} (hn : ∀ c ∈ n, IsPlain c)
    (h : k.map mergeSigma = n.map mergeSigma) : k = n := by
  induction n generalizing k with
  | nil => simpa using h
  | cons c n ih =>
    obtain ⟨hc, htail⟩ := List.forall_mem_cons.mp hn
    obtain ⟨-, hσ, hς⟩ := hc.ne_sigma
    cases k with
    | nil => cases h
    | cons d k =>
      simp only [List.map_cons, List.cons.injEq] at h
      obtain rfl : d = c := by
        have hd := h.1
        simp only [mergeSigma, if_neg hς] at hd
        split at hd
        · exact absurd hd.symm hσ
        · exact hd
      rw [ih htail h.2]

omit [UnicodeData] in
/-- `needle in text`. -/
def isIn (needle text : String) : Bool := decide (needle.toList <:+: text.toList)

/-- A plain text found in a lowered text is found in every continuation of it. -/
theorem isIn_lower_append {needle : String} (h : ∀ c ∈ needle.toList, IsPlain c) {a : String}
    (hin : isIn needle (lower a) = true) (b : String) : isIn needle (lower (a ++ b)) = true := by
  simp only [isIn, decide_eq_true_eq, toList_lower, String.toList_append] at hin ⊢
  have hmerged := hin.map mergeSigma
  have hlonger := hmerged.trans
    (mergeSigma_lowerFrom_append [] a.toList b.toList ▸ List.infix_append_of_infix_left
      List.infix_rfl)
  obtain ⟨k, hk, heq⟩ := List.infix_map_iff.mp hlonger
  rw [← eq_of_mergeSigma h heq.symm]
  exact hk

/-! ## `str` and `repr` -/

/-- `width` hexadecimal digits of a character code. -/
def hexDigits (width : ℕ) (n : ℕ) : List Char :=
  (List.range width).reverse.map fun i => Nat.digitChar (n / 16 ^ i % 16)

def backslash : Char := Char.ofNat 92
def singleQuote : Char := Char.ofNat 39
def doubleQuote : Char := Char.ofNat 34

/-- One character of a string literal. -/
def reprChar (quote c : Char) : List Char :=
  if c = quote ∨ c = backslash then [backslash, c]
  else if c = '\t' then [backslash, 't']
  else if c = '\n' then [backslash, 'n']
  else if c = '\r' then [backslash, 'r']
  else if isPrintable c then [c]
  else if c.toNat < 0x100 then backslash :: 'x' :: hexDigits 2 c.toNat
  else if c.toNat < 0x10000 then backslash :: 'u' :: hexDigits 4 c.toNat
  else backslash :: 'U' :: hexDigits 8 c.toNat

/-- `repr(s)`: double quotes only around a text that has single quotes and no double ones. -/
def reprStr (s : String) : String :=
  let quote := if singleQuote ∈ s.toList ∧ doubleQuote ∉ s.toList then doubleQuote
    else singleQuote
  String.ofList (quote :: s.toList.flatMap (reprChar quote) ++ [quote])

mutual
/-- `repr(v)`. -/
def PyVal.repr : PyVal → String
  | .none => "None"
  | .bool b => if b then "True" else "False"
  | .int n => toString n
  | .float repr => repr
  | .str s => reprStr s
  | .list items => "[" ++ String.intercalate ", " (reprItems items) ++ "]"
  | .dict entries => "\x7b" ++ String.intercalate ", " (reprEntries entries) ++ "\x7d"

def reprItems : List PyVal → List String
  | [] => []
  | v :: items => v.repr :: reprItems items

def reprEntries : List (String × PyVal) → List String
  | [] => []
  | (k, v) :: entries => (reprStr k ++ ": " ++ v.repr) :: reprEntries entries
end

/-- `str(v)`. -/
def PyVal.toStr : PyVal → String
  | .str s => s
  | v => v.repr

end ReportTriage

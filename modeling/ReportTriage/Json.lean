import ReportTriage.Encodings
import ReportTriage.Lib.Scanner

/-!
# Reading JSON

`json.loads` decodes its bytes and reads one document. Besides the standard it takes `NaN` and the
infinities, keeps a surrogate that stands alone, and lets the last of several equal keys win. A
document that is no JSON is a `ValueError`; one that is nested deeper than the interpreter can
call is a `RecursionError`, whatever comes after.

## Main definitions

* `Json.scanNumber`, `Json.scanString` — the scanners of what nests nothing.
* `Json.scanOnce`, `Json.scan` — one value, and the calls that it may nest.
* `Json.decode`, `Json.loads` — a document, from its text and from its bytes.
-/

namespace ReportTriage

/-- How `float` reads a literal: the text Python prints for the number. -/
class FloatReader where
  read : PyText → String

namespace Json

open Scanner
open CodePoint (char)

/-! ## Numbers -/

def isDigit (c : CodePoint) : Bool := 48 ≤ c.ord && c.ord ≤ 57

/-- The number that digits spell. -/
def digitsValue (ds : PyText) : ℕ := ds.foldl (fun n c => n * 10 + (c.ord - 48)) 0

/-- A sign, if there is one. -/
def takeSign (signs : List CodePoint) : PyText → PyText × PyText
  | c :: t => if c ∈ signs then ([c], t) else ([], c :: t)
  | [] => ([], [])

/-- `0`, or digits that do not begin with it. -/
def takeWhole : PyText → PyText × PyText
  | c :: t =>
    if c = char '0' then ([c], t) else ((c :: t).takeWhile isDigit, (c :: t).dropWhile isDigit)
  | [] => ([], [])

/-- A point and digits, if both are there. -/
def takeFraction : PyText → PyText × PyText
  | c :: t =>
    if c = char '.' ∧ t.takeWhile isDigit ≠ [] then
      (c :: t.takeWhile isDigit, t.dropWhile isDigit)
    else ([], c :: t)
  | [] => ([], [])

/-- An exponent, if it has digits; else the scanner goes back to before its mark. -/
def takeExponent : PyText → PyText × PyText
  | c :: t =>
    let (sign, t') := takeSign [char '+', char '-'] t
    if (c = char 'e' ∨ c = char 'E') ∧ t'.takeWhile isDigit ≠ [] then
      (c :: (sign ++ t'.takeWhile isDigit), t'.dropWhile isDigit)
    else ([], c :: t)
  | [] => ([], [])

variable [FloatReader]

/-- A number without fraction and exponent is an `int`, and `int` reads no more than
`maxStrDigits` digits. -/
def numberValue (sign whole fraction exponent : PyText) : Except Error JsonVal :=
  if fraction = [] ∧ exponent = [] then
    if whole.length ≤ maxStrDigits then
      .ok (.int (if sign = [] then digitsValue whole else -digitsValue whole))
    else .error .malformed
  else .ok (.float (FloatReader.read (sign ++ whole ++ fraction ++ exponent)))

def scanNumber (t : PyText) : Except Error (JsonVal × PyText) :=
  let (sign, t) := takeSign [char '-'] t
  let (whole, t) := takeWhole t
  if whole = [] then .error .malformed
  else
    let (fraction, t) := takeFraction t
    let (exponent, t) := takeExponent t
    (numberValue sign whole fraction exponent).bind fun v => .ok (v, t)

/-! ## Strings -/

def quote : CodePoint := char '\"'

def backslash : CodePoint := char '\\'

/-- A character of a string. Two units may make one. -/
inductive Piece
  | plain (c : CodePoint)
  /-- Written `\uXXXX`. -/
  | unit (c : CodePoint)

def hexDigit (c : CodePoint) : Option ℕ :=
  if 48 ≤ c.ord ∧ c.ord ≤ 57 then some (c.ord - 48)
  else if 97 ≤ c.ord ∧ c.ord ≤ 102 then some (c.ord - 87)
  else if 65 ≤ c.ord ∧ c.ord ≤ 70 then some (c.ord - 55)
  else none

def hexUnit (a b c d : CodePoint) : Option CodePoint := do
  let a ← hexDigit a
  let b ← hexDigit b
  let c ← hexDigit c
  let d ← hexDigit d
  chr (((a * 16 + b) * 16 + c) * 16 + d)

/-- What a letter stands for after a backslash. -/
def simpleEscapes : List (CodePoint × CodePoint) :=
  [(quote, quote), (backslash, backslash), (char '/', char '/'), (char 'b', char (.ofNat 8)),
    (char 'f', char (.ofNat 12)), (char 'n', char (.ofNat 10)), (char 'r', char (.ofNat 13)),
    (char 't', char (.ofNat 9))]

def scanUnit : Scan CodePoint Piece
  | a :: b :: c :: d :: t =>
    match hexUnit a b c d with
    | some x => .ok (.unit x, t)
    | none => .error .malformed
  | _ => .error .malformed

/-- What comes after a backslash. -/
def scanEscape : Scan CodePoint Piece
  | e :: t =>
    match simpleEscapes.lookup e with
    | some x => .ok (.plain x, t)
    | none => if e = char 'u' then scanUnit t else .error .malformed
  | [] => .error .malformed

/-- A control character must be escaped; a quote ends the string before it is read. -/
def nextPiece : Scan CodePoint Piece
  | c :: t =>
    if c = backslash then scanEscape t
    else if c = quote ∨ c.ord < 32 then .error .malformed
    else .ok (.plain c, t)
  | [] => .error .malformed

/-- A high and a low surrogate make one character if both are written as units. -/
def joinUnits : List Piece → PyText
  | .unit (.surrogate high) :: .unit (.surrogate low) :: l =>
    if high.val < 1024 ∧ 1024 ≤ low.val then
      .char (Char.ofNat (0x10000 + high.val * 1024 + (low.val - 1024))) :: joinUnits l
    else .surrogate high :: joinUnits (.unit (.surrogate low) :: l)
  | .plain c :: l => c :: joinUnits l
  | .unit c :: l => c :: joinUnits l
  | [] => []

def scanString : Scan CodePoint PyText
  | c :: t =>
    if c = quote then
      (upTo nextPiece quote t.length t).bind fun p => .ok (joinUnits p.1, p.2)
    else .error .malformed
  | [] => .error .malformed

/-! ## Values -/

def isBlank (c : CodePoint) : Bool :=
  c = char ' ' || c = char '\t' || c = char '\n' || c = char '\r'

/-- `d[key] = value`. -/
def setItem (d : JsonObject) (key : PyText) (value : JsonVal) : JsonObject :=
  if d.any fun e => e.1 = key then d.map fun e => if e.1 = key then (key, value) else e
  else d ++ [(key, value)]

/-- The dict of the members read, in their order. -/
def dictOf (members : List (PyText × JsonVal)) : JsonObject :=
  members.foldl (fun d e => setItem d e.1 e.2) []

def constants : List (PyText × JsonVal) :=
  [(pyText "null", .null), (pyText "true", .bool true), (pyText "false", .bool false),
    (pyText "NaN", .float "nan"), (pyText "Infinity", .float "inf"),
    (pyText "-Infinity", .float "-inf")]

def scanConstant (t : PyText) : Option (JsonVal × PyText) :=
  constants.findSome? fun c => if c.1 <+: t then some (c.2, t.drop c.1.length) else none

/-- One value. `enter` is the scanner of what is nested in it, or the `RecursionError` of
calling that. -/
def scanOnce (enter : Except Error (Scan CodePoint JsonVal)) : Scan CodePoint JsonVal
  | [] => .error .malformed
  | c :: t =>
    if c = quote then (scanString (c :: t)).bind fun p => .ok (.str p.1, p.2)
    else if c = char '{' then
      enter.bind fun value =>
        (bracketed (pair scanString value isBlank (char ':')) isBlank (char ',') (char '}') t).bind
          fun p => .ok (.dict (dictOf p.1), p.2)
    else if c = char '[' then
      enter.bind fun value =>
        (bracketed value isBlank (char ',') (char ']') t).bind fun p => .ok (.list p.1, p.2)
    else
      match scanConstant (c :: t) with
      | some p => .ok p
      | none => scanNumber (c :: t)

/-- `scan_once`, which may call itself `limit` deep. -/
def scan : ℕ → Scan CodePoint JsonVal
  | 0 => scanOnce (.error .tooDeep)
  | limit + 1 => scanOnce (.ok (scan limit))

/-- `JSONDecoder.decode`. -/
def decode (limit : ℕ) (t : PyText) : Except Error JsonVal :=
  (scan limit (t.dropWhile isBlank)).bind fun p =>
    if p.2.dropWhile isBlank = [] then .ok p.1 else .error .malformed

/-- `json.loads` on bytes. A `UnicodeDecodeError` is a `ValueError`. -/
def loads (limit : ℕ) (b : List UInt8) : Except Error JsonVal :=
  match decodeBytes b (detectEncoding b) with
  | some t => decode limit t
  | none => .error .malformed

end Json

end ReportTriage

import Mathlib.Tactic.Ring
import ReportTriage.Columns
import ReportTriage.Lib.Reader

/-!
# The bytes of a text

`json.loads` guesses the encoding of its bytes from the first four and decodes them with the error
handler `surrogatepass`: a surrogate may stand in the bytes like any other code point. Everything
else that is no encoding of a text is a `UnicodeDecodeError`.

## Main definitions

* `CodePoint.utf8`, `utf8` — a code point, and a text, in UTF-8.
* `detectEncoding`, `decodeBytes` — the guess, and the text.
* `decodeUtf8_eq_some_iff` — decoding UTF-8 is the inverse of encoding.
-/

namespace ReportTriage

/-! ## Code points and their numbers -/

/-- `ord`. -/
def CodePoint.ord : CodePoint → ℕ
  | .char c => c.toNat
  | .surrogate n => 0xD800 + n.val

/-- `chr`. -/
def chr (n : ℕ) : Option CodePoint :=
  if h : 0xD800 ≤ n ∧ n < 0xE000 then some (.surrogate ⟨n - 0xD800, by omega⟩)
  else if n < 0x110000 then some (.char (Char.ofNat n))
  else none

theorem CodePoint.ord_lt (c : CodePoint) : c.ord < 0x110000 := by
  cases c with
  | char c =>
    have hvalid := c.valid
    simp only [CodePoint.ord, Char.toNat, UInt32.isValidChar, Nat.isValidChar] at hvalid ⊢
    omega
  | surrogate n =>
    simp only [CodePoint.ord]
    omega

theorem chr_ord (c : CodePoint) : chr c.ord = some c := by
  cases c with
  | char c =>
    have hlt := (CodePoint.char c).ord_lt
    have hvalid := c.valid
    simp only [CodePoint.ord, Char.toNat, UInt32.isValidChar, Nat.isValidChar] at hlt hvalid
    simp only [CodePoint.ord]
    rw [chr, dif_neg (by simp only [Char.toNat]; omega), if_pos (by exact hlt), Char.ofNat_toNat]
  | surrogate n =>
    rw [chr, dif_pos (by simp only [CodePoint.ord]; omega)]
    simp only [CodePoint.ord, Nat.add_sub_cancel_left]

theorem ord_of_chr {n : ℕ} {c : CodePoint} (h : chr n = some c) : c.ord = n := by
  rw [chr] at h
  split at h
  · rename_i hn
    cases h
    simp only [CodePoint.ord]
    omega
  · rename_i hn
    split at h
    · cases h
      have hvalid : n.isValidChar := by
        rw [Nat.isValidChar]
        omega
      rw [CodePoint.ord, Char.ofNat, dif_pos hvalid]
      rfl
    · cases h

/-! ## UTF-8 -/

/-- How many bytes follow the first. -/
def tailCount (n : ℕ) : ℕ :=
  if n < 0x80 then 0 else if n < 0x800 then 1 else if n < 0x10000 then 2 else 3

/-- The marker in the first byte. -/
def lead : ℕ → ℕ
  | 0 => 0
  | 1 => 0xC0
  | 2 => 0xE0
  | _ => 0xF0

/-- The last `6 * k` bits of a number. -/
def tailBytes : ℕ → ℕ → List UInt8
  | 0, _ => []
  | k + 1, n => UInt8.ofNat (0x80 + n / 64 ^ k % 64) :: tailBytes k n

def CodePoint.utf8 (c : CodePoint) : List UInt8 :=
  UInt8.ofNat (lead (tailCount c.ord) + c.ord / 64 ^ tailCount c.ord) ::
    tailBytes (tailCount c.ord) c.ord

def utf8 (s : PyText) : List UInt8 := s.flatMap CodePoint.utf8

/-- What a first byte says: how many follow, and its own bits. -/
def leadBits (a : ℕ) : Option (ℕ × ℕ) :=
  if a < 0x80 then some (0, a)
  else if a / 32 = 6 then some (1, a % 32)
  else if a / 16 = 14 then some (2, a % 16)
  else if a / 8 = 30 then some (3, a % 8)
  else none

def readTails : ℕ → ℕ → List UInt8 → Option (ℕ × List UInt8)
  | 0, n, t => some (n, t)
  | _ + 1, _, [] => none
  | k + 1, n, b :: t =>
    if b.toNat / 64 = 2 then readTails k (n * 64 + b.toNat % 64) t else none

/-- One code point, which must not be written with more bytes than it needs. -/
def nextUtf8 : List UInt8 → Option (CodePoint × List UInt8)
  | [] => none
  | a :: t =>
    (leadBits a.toNat).bind fun p => (readTails p.1 p.2 t).bind fun q => (chr q.1).bind fun c =>
      if tailCount q.1 = p.1 then some (c, q.2) else none

def decodeUtf8 (b : List UInt8) : Option PyText := Reader.all nextUtf8 b.length b

theorem readTails_tailBytes (k m : ℕ) (rest : List UInt8) :
    readTails k (m / 64 ^ k) (tailBytes k m ++ rest) = some (m, rest) := by
  induction k with
  | zero => simp [readTails, tailBytes]
  | succ k ih =>
    have hbyte : (UInt8.ofNat (0x80 + m / 64 ^ k % 64)).toNat = 0x80 + m / 64 ^ k % 64 := by
      rw [UInt8.toNat_ofNat_of_lt']
      have := Nat.mod_lt (m / 64 ^ k) (show 0 < 64 by decide)
      rw [UInt8.size]
      omega
    have hbits : m / 64 ^ (k + 1) * 64 + (0x80 + m / 64 ^ k % 64) % 64 = m / 64 ^ k := by
      rw [pow_succ, ← Nat.div_div_eq_div_mul]
      omega
    rw [tailBytes, List.cons_append, readTails, hbyte, if_pos (by omega), hbits, ih]

theorem tailBytes_of_readTails {k n m : ℕ} {t rest : List UInt8}
    (h : readTails k n t = some (m, rest)) : t = tailBytes k m ++ rest ∧ m / 64 ^ k = n := by
  induction k generalizing n t with
  | zero =>
    cases h
    simp [tailBytes]
  | succ k ih =>
    cases t with
    | nil => cases h
    | cons b t =>
      rw [readTails] at h
      split at h
      · rename_i hb
        obtain ⟨rfl, hm⟩ := ih h
        have hbyte : UInt8.ofNat (0x80 + m / 64 ^ k % 64) = b := by
          rw [← UInt8.ofNat_toNat (x := b)]
          congr 1
          omega
        rw [tailBytes, hbyte, pow_succ, ← Nat.div_div_eq_div_mul, hm]
        exact ⟨rfl, by omega⟩
      · cases h

theorem leadBits_lead {n : ℕ} (hn : n < 0x110000) :
    leadBits (lead (tailCount n) + n / 64 ^ tailCount n) =
      some (tailCount n, n / 64 ^ tailCount n) := by
  simp only [tailCount]
  split
  · rw [lead, leadBits, if_pos (by omega), Nat.zero_add]
  · split
    · rw [lead, leadBits, if_neg (by omega), if_pos (by omega)]
      simp only [Option.some.injEq, Prod.mk.injEq, true_and]
      omega
    · split
      · rw [lead, leadBits, if_neg (by omega), if_neg (by omega), if_pos (by omega)]
        simp only [Option.some.injEq, Prod.mk.injEq, true_and]
        omega
      · rw [lead, leadBits, if_neg (by omega), if_neg (by omega), if_neg (by omega),
          if_pos (by omega)]
        · simp only [Option.some.injEq, Prod.mk.injEq, true_and]
          omega
        all_goals simp

theorem lead_of_leadBits {a k n : ℕ} (h : leadBits a = some (k, n)) : a = lead k + n := by
  simp only [leadBits] at h
  split at h
  · cases h
    simp [lead]
  · repeat' split at h
    all_goals
      cases h
      try simp only [lead]
    all_goals omega

/-- **UTF-8 with surrogates.** -/
theorem undoes_utf8 : Reader.Undoes nextUtf8 CodePoint.utf8 where
  read c rest := by
    have hlt := c.ord_lt
    have hbits := leadBits_lead hlt
    have hbyte : (UInt8.ofNat (lead (tailCount c.ord) + c.ord / 64 ^ tailCount c.ord)).toNat =
        lead (tailCount c.ord) + c.ord / 64 ^ tailCount c.ord := by
      rw [UInt8.toNat_ofNat_of_lt']
      simp only [UInt8.size, tailCount]
      repeat' split
      all_goals simp only [lead]
      all_goals omega
    rw [CodePoint.utf8, List.cons_append, nextUtf8, hbyte, hbits, Option.bind_some,
      readTails_tailBytes, Option.bind_some, chr_ord, Option.bind_some, if_pos rfl]
  written t c rest h := by
    cases t with
    | nil => cases h
    | cons a t =>
      obtain ⟨⟨k, n⟩, hlead, h⟩ := Option.bind_eq_some_iff.mp h
      obtain ⟨⟨m, rest'⟩, htails, h⟩ := Option.bind_eq_some_iff.mp h
      obtain ⟨c', hc, h⟩ := Option.bind_eq_some_iff.mp h
      split at h
      · rename_i hcount
        cases h
        obtain rfl := ord_of_chr hc
        obtain ⟨rfl, hn⟩ := tailBytes_of_readTails htails
        rw [CodePoint.utf8, hcount, List.cons_append, hn, ← lead_of_leadBits hlead,
          UInt8.ofNat_toNat]
      · cases h
  nonempty c := by simp [CodePoint.utf8]

theorem decodeUtf8_eq_some_iff {b : List UInt8} {s : PyText} :
    decodeUtf8 b = some s ↔ b = utf8 s := Reader.all_eq_some_iff undoes_utf8

/-! ## The other encodings -/

inductive ByteOrder
  | big
  | little
  deriving DecidableEq

/-- The number that bytes make in this order. -/
def ByteOrder.number : ByteOrder → List UInt8 → ℕ
  | .big, bytes => bytes.foldl (fun n b => n * 256 + b.toNat) 0
  | .little, bytes => bytes.foldr (fun b n => n * 256 + b.toNat) 0

def nextUtf16 (order : ByteOrder) : List UInt8 → Option (CodePoint × List UInt8)
  | a :: b :: t => (chr (order.number [a, b])).map fun c => (c, t)
  | _ => none

def nextUtf32 (order : ByteOrder) : List UInt8 → Option (CodePoint × List UInt8)
  | a :: b :: c :: d :: t => (chr (order.number [a, b, c, d])).map fun c => (c, t)
  | _ => none

def decodeUtf16 (order : ByteOrder) (b : List UInt8) : Option PyText :=
  (Reader.all (nextUtf16 order) b.length b).map pairSurrogates

def decodeUtf32 (order : ByteOrder) (b : List UInt8) : Option PyText :=
  Reader.all (nextUtf32 order) b.length b

/-- The first three begin with a byte order mark. -/
inductive Encoding
  | utf32
  | utf16
  | utf8Sig
  | utf16Of (order : ByteOrder)
  | utf32Of (order : ByteOrder)
  | utf8
  deriving DecidableEq

def bom (order : ByteOrder) : List UInt8 :=
  match order with
  | .big => [0xFE, 0xFF]
  | .little => [0xFF, 0xFE]

/-- `json.detect_encoding`. A document begins with two characters of ASCII, or with one. -/
def detectEncoding (b : List UInt8) : Encoding :=
  if [0, 0] ++ bom .big <+: b ∨ bom .little ++ [0, 0] <+: b then .utf32
  else if bom .big <+: b ∨ bom .little <+: b then .utf16
  else if [0xEF, 0xBB, 0xBF] <+: b then .utf8Sig
  else match b with
    | w :: x :: y :: z :: _ =>
      if w = 0 then if x = 0 then .utf32Of .big else .utf16Of .big
      else if x = 0 then if y = 0 ∧ z = 0 then .utf32Of .little else .utf16Of .little
      else .utf8
    | [w, x] => if w = 0 then .utf16Of .big else if x = 0 then .utf16Of .little else .utf8
    | _ => .utf8

/-- `b.decode(encoding, "surrogatepass")`. -/
def decodeBytes (b : List UInt8) : Encoding → Option PyText
  | .utf32 => if bom .little <+: b then decodeUtf32 .little (b.drop 4)
      else decodeUtf32 .big (b.drop 4)
  | .utf16 => if bom .little <+: b then decodeUtf16 .little (b.drop 2)
      else decodeUtf16 .big (b.drop 2)
  | .utf8Sig => decodeUtf8 (b.drop 3)
  | .utf16Of order => decodeUtf16 order b
  | .utf32Of order => decodeUtf32 order b
  | .utf8 => decodeUtf8 b

/-- Bytes that begin with two characters of ASCII, none of them NUL, are taken for UTF-8. -/
theorem detectEncoding_of_ascii {w x : UInt8} {b : List UInt8} (hw : w ≠ 0) (hlt : w < 0x80)
    (hx : x ≠ 0) : detectEncoding (w :: x :: b) = .utf8 := by
  have hmark : ∀ (m : UInt8) (l : List UInt8), 0x80 ≤ m → ¬ m :: l <+: w :: x :: b := by
    intro m l hm h
    obtain ⟨rfl, -⟩ := List.cons_prefix_cons.mp h
    exact absurd hlt (UInt8.not_lt.mpr hm)
  have hutf32 : ¬ ([0, 0] ++ bom .big <+: w :: x :: b ∨
      bom .little ++ [0, 0] <+: w :: x :: b) := by
    rintro (h | h)
    · exact hw (List.cons_prefix_cons.mp h).1.symm
    · exact hmark 0xFF _ (by decide) h
  have hutf16 : ¬ (bom .big <+: w :: x :: b ∨ bom .little <+: w :: x :: b) := by
    rintro (h | h)
    · exact hmark 0xFE _ (by decide) h
    · exact hmark 0xFF _ (by decide) h
  unfold detectEncoding
  rw [if_neg hutf32, if_neg hutf16, if_neg (hmark 0xEF _ (by decide))]
  rcases b with _ | ⟨y, _ | ⟨z, b⟩⟩
  · exact (if_neg hw).trans (if_neg hx)
  · rfl
  · exact (if_neg hw).trans (if_neg hx)

end ReportTriage

import Mathlib.Data.List.TakeWhile
import ReportTriage.Lib.Calendar
import ReportTriage.Text

/-!
# Cursors

The token a page ends with: the time an item was enqueued, as `datetime.isoformat` writes it,
a bar, and the item's id. `datetime.fromisoformat` accepts many more texts than `isoformat`
writes; it is a parameter, and the only law asks that it reads back what is written. An offset of
less than a second is the one thing it does not read back: it takes the time for one in UTC.

## Main definitions

* `DateTime`, `DateTime.isoformat`, `DateTime.ofTime` — the texts of times.
* `DateTime.KeepsOffset`, `IsoReader` — `fromisoformat`, and what it reads back.
* `isoReader` — an instance that reads nothing but such texts.
* `encodeCursor`, `decodeCursor`, `decode_encode` — the codec and its round trip.
-/

namespace ReportTriage

/-! ## `datetime` -/

/-- A `datetime`. The offset from UTC is in microseconds, and missing in a naive one. -/
structure DateTime where
  date : Calendar.Date
  hour : ℕ
  minute : ℕ
  second : ℕ
  microsecond : ℕ
  utcoffset : Option ℤ
  year_le : date.year ≤ 9999
  hour_lt : hour < 24
  minute_lt : minute < 60
  second_lt : second < 60
  microsecond_lt : microsecond < 1000000
  utcoffset_lt : ∀ o, utcoffset = some o → o.natAbs < 86400000000

namespace DateTime

/-- `%0wd`. -/
def pad (width n : ℕ) : List Char := (Nat.toDigits 10 n).leftpad width '0'

/-- Seconds, and what there is beyond: nothing if that is zero. -/
def fraction (microsecond : ℕ) : List Char :=
  if microsecond = 0 then [] else '.' :: pad 6 microsecond

/-- The seconds of an offset: nothing if they are zero. -/
def offsetSeconds (micros : ℕ) : List Char :=
  if micros = 0 then [] else ':' :: pad 2 (micros / 1000000) ++ fraction (micros % 1000000)

/-- The offset, which is empty in a naive time. -/
def formatOffset : Option ℤ → List Char
  | none => []
  | some o =>
    (if o < 0 then '-' else '+') :: pad 2 (o.natAbs / 3600000000) ++
      ':' :: pad 2 (o.natAbs / 60000000 % 60) ++ offsetSeconds (o.natAbs % 60000000)

/-- `isoformat()`. -/
def isoformat (d : DateTime) : String :=
  String.ofList (pad 4 d.date.year ++ '-' :: pad 2 d.date.month ++ '-' :: pad 2 d.date.day ++
    'T' :: pad 2 d.hour ++ ':' :: pad 2 d.minute ++ ':' :: pad 2 d.second ++
    fraction d.microsecond ++ formatOffset d.utcoffset)

/-- Days from the first of year 1 to the epoch. -/
def epochDay : ℕ := 719162

/-- Microseconds since the epoch on a clock that shows this date and time. -/
def clock (d : DateTime) : ℤ :=
  ((((d.date.number : ℤ) - epochDay) * 24 + d.hour) * 60 + d.minute) * 60000000 +
    d.second * 1000000 + d.microsecond

theorem day_lt (t : Time) : epochDay + t.val / 86400000000 < Calendar.daysBeforeYear 10000 := by
  have hlast : Calendar.daysBeforeYear 10000 = 3652059 := rfl
  have ht := t.isLt
  simp only [epochDay]
  omega

/-- What the driver returns for a `timestamptz`: its UTC time. -/
def ofTime (t : Time) : DateTime where
  date := Calendar.ofNumber (epochDay + t.val / 86400000000)
  hour := t.val / 3600000000 % 24
  minute := t.val / 60000000 % 60
  second := t.val / 1000000 % 60
  microsecond := t.val % 1000000
  utcoffset := some 0
  year_le := Nat.le_of_lt_succ (Calendar.year_ofNumber_lt (day_lt t))
  hour_lt := by omega
  minute_lt := by omega
  second_lt := by omega
  microsecond_lt := by omega
  utcoffset_lt := by simp

example : (ofTime 1700000000000001).isoformat = "2023-11-14T22:13:20.000001+00:00" := by
  decide +kernel

theorem clock_ofTime (t : Time) : (ofTime t).clock = t.val := by
  simp only [clock, ofTime, Calendar.number_ofNumber]
  push_cast
  omega

/-- The offset is one that `fromisoformat` keeps: UTC, or at least a second. -/
def KeepsOffset (d : DateTime) : Prop := ∀ o ∈ d.utcoffset, o = 0 ∨ 1000000 ≤ o.natAbs

theorem keepsOffset_ofTime (t : Time) : (ofTime t).KeepsOffset := by
  rintro o ⟨⟩
  exact .inl rfl

end DateTime

/-- `datetime.fromisoformat`: `none` is a `ValueError`. -/
class IsoReader where
  fromisoformat : String → Option DateTime
  fromisoformat_isoformat : ∀ d : DateTime, d.KeepsOffset → fromisoformat d.isoformat = some d
  /-- The offset of the system's time zone, which the driver takes a naive time to have. -/
  localOffset : DateTime → ℤ

/-! ### Reading what `isoformat` writes -/

namespace DateTime

/-- The digits a text begins with, as a number, and the text after them. -/
def readNumber (text : List Char) : ℕ × List Char :=
  (Nat.ofDigitChars 10 (text.takeWhile Char.isDigit) 0, text.dropWhile Char.isDigit)

/-- A number after a given character, if the text begins with it; else zero. -/
def readAfter (c : Char) (text : List Char) : ℕ × List Char :=
  if text.head? = some c then readNumber text.tail else (0, text)

def readOffset (text : List Char) : Option ℤ :=
  match text with
  | [] => none
  | sign :: text =>
    let (hours, text) := readNumber text
    let (minutes, text) := readAfter ':' text
    let (seconds, text) := readAfter ':' text
    let (micros, _) := readAfter '.' text
    let o : ℤ := (hours * 60 + minutes) * 60000000 + seconds * 1000000 + micros
    some (if sign = '-' then -o else o)

/-- The `datetime` with these fields, if there is one. -/
def ofFields (year month day hour minute second microsecond : ℕ) (offset : Option ℤ) :
    Option DateTime :=
  if h : ((0 < year ∧ year ≤ 9999) ∧ (1 ≤ month ∧ month ≤ 12) ∧
      (1 ≤ day ∧ day ≤ Calendar.daysInMonth (Calendar.isLeap year) month)) ∧
      hour < 24 ∧ minute < 60 ∧ second < 60 ∧ microsecond < 1000000 ∧
      ∀ o ∈ offset, o.natAbs < 86400000000 then
    some
      { date := ⟨year, month, day, h.1.1.1, h.1.2.1, h.1.2.2⟩
        hour := hour
        minute := minute
        second := second
        microsecond := microsecond
        utcoffset := offset
        year_le := h.1.1.2
        hour_lt := h.2.1
        minute_lt := h.2.2.1
        second_lt := h.2.2.2.1
        microsecond_lt := h.2.2.2.2.1
        utcoffset_lt := h.2.2.2.2.2 }
  else none

theorem ofFields_self (d : DateTime) :
    ofFields d.date.year d.date.month d.date.day d.hour d.minute d.second d.microsecond
      d.utcoffset = some d :=
  dif_pos ⟨⟨⟨d.date.year_pos, d.year_le⟩, d.date.month_range, d.date.day_range⟩, d.hour_lt,
    d.minute_lt, d.second_lt, d.microsecond_lt, d.utcoffset_lt⟩

/-- The `datetime` of a text `isoformat` has written. -/
def readIso (s : String) : Option DateTime :=
  let (year, text) := readNumber s.toList
  let (month, text) := readAfter '-' text
  let (day, text) := readAfter '-' text
  let (hour, text) := readAfter 'T' text
  let (minute, text) := readAfter ':' text
  let (second, text) := readAfter ':' text
  let (microsecond, text) := readAfter '.' text
  ofFields year month day hour minute second microsecond (readOffset text)

/-- A text that goes on with something other than a digit. -/
def NoDigit (text : List Char) : Prop := ∀ c ∈ text.head?, c.isDigit = false

theorem noDigit_cons {c : Char} (h : c.isDigit = false) (text : List Char) :
    NoDigit (c :: text) := by
  rintro d (rfl | _)
  exact h

theorem isDigit_pad {width n : ℕ} {c : Char} (h : c ∈ pad width n) : c.isDigit = true := by
  simp only [pad, List.leftpad, List.mem_append] at h
  rcases h with h | h
  · rw [List.eq_of_mem_replicate h]
    decide
  · exact Nat.isDigit_of_mem_toDigits (by decide) (by decide) h

theorem ofDigitChars_pad (width n : ℕ) : Nat.ofDigitChars 10 (pad width n) 0 = n := by
  rw [pad, List.leftpad, Nat.ofDigitChars_append, Nat.ofDigitChars_replicate_zero, Nat.mul_zero,
    Nat.ofDigitChars_ten_toDigits]

theorem readNumber_pad (width n : ℕ) {text : List Char} (h : NoDigit text) :
    readNumber (pad width n ++ text) = (n, text) := by
  have hdigits : ∀ c ∈ pad width n, c.isDigit = true := fun _ => isDigit_pad
  have htake : text.takeWhile Char.isDigit = [] ∧ text.dropWhile Char.isDigit = text := by
    cases text with
    | nil => exact ⟨rfl, rfl⟩
    | cons c text => simp [h c rfl]
  rw [readNumber, List.takeWhile_append_of_pos hdigits, List.dropWhile_append_of_pos hdigits,
    htake.1, htake.2, List.append_nil, ofDigitChars_pad]

theorem readAfter_pad (c : Char) (width n : ℕ) {text : List Char} (h : NoDigit text) :
    readAfter c (c :: (pad width n ++ text)) = (n, text) := by
  rw [readAfter, List.head?_cons, if_pos rfl]
  exact readNumber_pad width n h

theorem readAfter_of_ne {c : Char} {text : List Char} (h : text.head? ≠ some c) :
    readAfter c text = (0, text) := if_neg h

theorem noDigit_fraction (microsecond : ℕ) {l : List Char} (h : NoDigit l) :
    NoDigit (fraction microsecond ++ l) := by
  simp only [fraction]
  split
  · exact h
  · exact noDigit_cons (by decide) _

theorem readAfter_fraction (microsecond : ℕ) {l : List Char} (h : NoDigit l)
    (hdot : l.head? ≠ some '.') :
    readAfter '.' (fraction microsecond ++ l) = (microsecond, l) := by
  simp only [fraction]
  split
  · rename_i hzero
    rw [List.nil_append, readAfter_of_ne hdot, hzero]
  · exact readAfter_pad '.' 6 microsecond h

theorem noDigit_offsetSeconds (micros : ℕ) : NoDigit (offsetSeconds micros) := by
  simp only [offsetSeconds]
  split
  · rintro c ⟨⟩
  · exact noDigit_cons (by decide) _

theorem readAfter_offsetSeconds (micros : ℕ) :
    readAfter ':' (offsetSeconds micros) = (micros / 1000000, fraction (micros % 1000000)) := by
  simp only [offsetSeconds]
  split
  · rename_i hzero
    rw [hzero]
    rfl
  · have h := noDigit_fraction (micros % 1000000) (l := []) nofun
    rw [List.append_nil] at h
    exact readAfter_pad ':' 2 _ h

theorem head_formatOffset {o : Option ℤ} {c : Char} (h : (formatOffset o).head? = some c) :
    c = '+' ∨ c = '-' := by
  cases o with
  | none => cases h
  | some o =>
    rw [← Option.some.inj h]
    split <;> simp

theorem noDigit_formatOffset (o : Option ℤ) : NoDigit (formatOffset o) := by
  intro c hc
  rcases head_formatOffset hc with rfl | rfl <;> decide

theorem readOffset_formatOffset (o : Option ℤ) : readOffset (formatOffset o) = o := by
  cases o with
  | none => rfl
  | some o =>
    have hdot := readAfter_fraction (o.natAbs % 60000000 % 1000000) (l := []) nofun nofun
    rw [List.append_nil] at hdot
    simp only [formatOffset, readOffset, List.cons_append, List.append_assoc]
    rw [readNumber_pad 2 _ (noDigit_cons (by decide) _)]
    dsimp only
    rw [readAfter_pad ':' 2 _ (noDigit_offsetSeconds _)]
    dsimp only
    rw [readAfter_offsetSeconds, hdot]
    by_cases hneg : o < 0
    · rw [if_pos hneg, if_pos rfl, Option.some.injEq]
      omega
    · rw [if_neg hneg, if_neg (by decide), Option.some.injEq]
      omega

theorem readIso_isoformat (d : DateTime) : readIso d.isoformat = some d := by
  have hend := noDigit_formatOffset d.utcoffset
  have hdot : (formatOffset d.utcoffset).head? ≠ some '.' := fun h => by
    rcases head_formatOffset h with h | h <;> cases h
  simp only [isoformat, readIso, String.toList_ofList, List.cons_append, List.append_assoc]
  rw [readNumber_pad 4 _ (noDigit_cons (by decide) _)]
  dsimp only
  rw [readAfter_pad '-' 2 _ (noDigit_cons (by decide) _)]
  dsimp only
  rw [readAfter_pad '-' 2 _ (noDigit_cons (by decide) _)]
  dsimp only
  rw [readAfter_pad 'T' 2 _ (noDigit_cons (by decide) _)]
  dsimp only
  rw [readAfter_pad ':' 2 _ (noDigit_cons (by decide) _)]
  dsimp only
  rw [readAfter_pad ':' 2 _ (noDigit_fraction _ hend)]
  dsimp only
  rw [readAfter_fraction _ hend hdot, readOffset_formatOffset, ofFields_self]

theorem isoformat_injective : Function.Injective isoformat := by
  intro d d' h
  have hread := congrArg readIso h
  rw [readIso_isoformat, readIso_isoformat] at hread
  exact Option.some.inj hread

/-- An offset of less than a second is taken for UTC. -/
def wholeOffset (d : DateTime) : DateTime :=
  { d with
    utcoffset := d.utcoffset.map fun o => if o.natAbs < 1000000 then 0 else o
    utcoffset_lt := by
      intro o ho
      obtain ⟨o', ho', rfl⟩ := Option.map_eq_some_iff.mp ho
      have hlt := d.utcoffset_lt o' ho'
      split <;> simp_all }

theorem KeepsOffset.wholeOffset {d : DateTime} (h : d.KeepsOffset) : d.wholeOffset = d := by
  have hoffset : (d.utcoffset.map fun o => if o.natAbs < 1000000 then 0 else o) = d.utcoffset := by
    cases ho : d.utcoffset with
    | none => rfl
    | some o =>
      rw [Option.map_some, Option.some.injEq]
      rcases h o ho with rfl | hle
      · rfl
      · exact if_neg (by omega)
  simp only [DateTime.wholeOffset, hoffset]

end DateTime

/-- A reader of what `isoformat` writes, on a system in UTC. -/
@[reducible] def isoReader : IsoReader where
  fromisoformat s := (DateTime.readIso s).map DateTime.wholeOffset
  fromisoformat_isoformat d hd := by
    rw [DateTime.readIso_isoformat, Option.map_some, hd.wholeOffset]
  localOffset _ := 0

/-- The instant a `timestamptz` is compared by. -/
def DateTime.instant [IsoReader] (d : DateTime) : ℤ :=
  d.clock - d.utcoffset.getD (IsoReader.localOffset d)

theorem DateTime.instant_ofTime [IsoReader] (t : Time) : (ofTime t).instant = t.val := by
  rw [instant, clock_ofTime]
  exact Int.sub_zero _

/-! ## The codec -/

/-- `s.split(sep, 1)`, unpacked into two texts. -/
def splitOnce (sep : Char) (s : String) : Option (String × String) :=
  match s.toList.dropWhile (· ≠ sep) with
  | [] => none
  | _ :: rest => some (String.ofList (s.toList.takeWhile (· ≠ sep)), String.ofList rest)

/-- `_encode_cursor`. -/
def encodeCursor (enqueuedAt : DateTime) (itemId : String) : String :=
  enqueuedAt.isoformat ++ "|" ++ itemId

/-- `_decode_cursor`; the error is the text of its `ValueError`. -/
def decodeCursor [UnicodeData] [IsoReader] (cursor : String) : Except String (DateTime × String) :=
  match splitOnce '|' cursor with
  | none => .error ("invalid cursor: " ++ reprStr cursor)
  | some (ts, itemId) =>
    match IsoReader.fromisoformat ts with
    | none => .error ("invalid cursor: " ++ reprStr cursor)
    | some enqueuedAt => .ok (enqueuedAt, itemId)

theorem splitOnce_append {sep : Char} {a : String} (h : sep ∉ a.toList) (b : String) :
    splitOnce sep (a ++ String.singleton sep ++ b) = some (a, b) := by
  have hpos : ∀ c ∈ a.toList, (decide (c ≠ sep)) = true := by
    intro c hc
    rw [decide_eq_true_eq]
    rintro rfl
    exact h hc
  have htext : (a ++ String.singleton sep ++ b).toList = a.toList ++ sep :: b.toList := by simp
  rw [splitOnce, htext, List.dropWhile_append_of_pos hpos, List.takeWhile_append_of_pos hpos]
  simp

/-- What is split was the two texts around the first separator. -/
theorem eq_of_splitOnce {sep : Char} {s a b : String} (h : splitOnce sep s = some (a, b)) :
    sep ∉ a.toList ∧ s = a ++ String.singleton sep ++ b := by
  have hwhole := s.toList.takeWhile_append_dropWhile (p := (· ≠ sep))
  simp only [splitOnce] at h
  split at h
  · cases h
  · rename_i c rest hdrop
    cases h
    have hsep : c = sep := by
      have hhead := List.head_dropWhile_not (fun c => decide (c ≠ sep)) (l := s.toList)
        (hdrop ▸ List.cons_ne_nil c rest)
      simpa only [hdrop, List.head_cons, decide_eq_false_iff_not, not_not] using hhead
    constructor
    · intro hmem
      rw [String.toList_ofList] at hmem
      simpa using List.mem_takeWhile_imp hmem
    · rw [hdrop, hsep] at hwhole
      rw [← String.toList_inj, String.toList_append, String.toList_append, String.toList_ofList,
        String.toList_ofList, String.toList_singleton, List.append_assoc]
      exact hwhole.symm

/-- `isoformat` writes no bar. -/
theorem bar_not_mem_isoformat (d : DateTime) : '|' ∉ d.isoformat.toList := by
  have hpad : ∀ w n, '|' ∉ DateTime.pad w n := fun w n h => by
    have := DateTime.isDigit_pad h
    revert this
    decide
  have hfraction : ∀ n, '|' ∉ DateTime.fraction n := fun n => by
    simp only [DateTime.fraction]
    split <;> simp [hpad]
  have hseconds : ∀ n, '|' ∉ DateTime.offsetSeconds n := fun n => by
    simp only [DateTime.offsetSeconds]
    split <;> simp [hpad, hfraction]
  have hoffset : '|' ∉ DateTime.formatOffset d.utcoffset := by
    cases d.utcoffset with
    | none => simp [DateTime.formatOffset]
    | some o =>
      have hsign : '|' ≠ if o < 0 then '-' else '+' := by split <;> decide
      simp [DateTime.formatOffset, hpad, hseconds, hsign]
  simp [DateTime.isoformat, hpad, hfraction, hoffset]

theorem splitOnce_encodeCursor (d : DateTime) (itemId : String) :
    splitOnce '|' (encodeCursor d itemId) = some (d.isoformat, itemId) :=
  splitOnce_append (bar_not_mem_isoformat d) itemId

example : splitOnce '|' (encodeCursor (.ofTime 1700000000000001) "a|b") =
    some ("2023-11-14T22:13:20.000001+00:00", "a|b") := by decide +kernel

/-- **The codec's round trip.** -/
theorem decode_encode [UnicodeData] [IsoReader] {d : DateTime} (hd : d.KeepsOffset)
    (itemId : String) : decodeCursor (encodeCursor d itemId) = .ok (d, itemId) := by
  rw [decodeCursor, splitOnce_encodeCursor]
  dsimp only
  rw [IsoReader.fromisoformat_isoformat d hd]

end ReportTriage

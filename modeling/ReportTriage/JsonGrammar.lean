import Mathlib.Data.List.Nodup
import ReportTriage.Json

/-!
# What the reader of JSON reads

The texts that are JSON are described without the reader, and it is shown to read these, each with
what it means, and no others.

## Main definitions

* `Json.Spells`, `Json.Document` — the texts nested no deeper than a bound, and what they mean.
* `Json.decode_eq_ok_iff` — the reader reads the documents nested no deeper than it can call.
* `Json.decode_of_document` — it gives up on those nested deeper.
* `Json.lt_brackets_of_decode` — it gives up on no text with fewer brackets.
-/

namespace ReportTriage

namespace Json

open Scanner
open CodePoint (char)

/-! ## Numbers -/

def Digits (ds : PyText) : Prop := ds ≠ [] ∧ ∀ c ∈ ds, isDigit c = true

def IsSign (signs : List CodePoint) (w : PyText) : Prop := w = [] ∨ ∃ c ∈ signs, w = [c]

def IsWhole (w : PyText) : Prop :=
  w = [char '0'] ∨ Digits w ∧ w.head? ≠ some (char '0')

def IsFraction (w : PyText) : Prop := w = [] ∨ ∃ ds, Digits ds ∧ w = char '.' :: ds

def IsExponent (w : PyText) : Prop :=
  w = [] ∨ ∃ e sign ds, (e = char 'e' ∨ e = char 'E') ∧ IsSign [char '+', char '-'] sign ∧
    Digits ds ∧ w = e :: (sign ++ ds)

variable {t w rest ds : PyText} {signs : List CodePoint} {v : JsonVal}

theorem span_digits (hds : ∀ c ∈ ds, isDigit c = true)
    (hrest : Follows (fun c => isDigit c = false) rest) :
    (ds ++ rest).takeWhile isDigit = ds ∧ (ds ++ rest).dropWhile isDigit = rest := by
  rw [List.takeWhile_append_of_pos hds, List.dropWhile_append_of_pos hds]
  cases rest with
  | nil => simp
  | cons c rest =>
    have hc : isDigit c = false := hrest c rfl
    simp [hc]

theorem digits_takeWhile (h : t.takeWhile isDigit ≠ []) : Digits (t.takeWhile isDigit) :=
  ⟨h, fun _ hc => List.mem_takeWhile_imp hc⟩

theorem takeSign_spec (signs : List CodePoint) (t : PyText) :
    t = (takeSign signs t).1 ++ (takeSign signs t).2 ∧ IsSign signs (takeSign signs t).1 := by
  cases t with
  | nil => exact ⟨rfl, .inl rfl⟩
  | cons c t =>
    rw [takeSign]
    split
    · exact ⟨rfl, .inr ⟨c, ‹_›, rfl⟩⟩
    · exact ⟨rfl, .inl rfl⟩

theorem takeSign_append (hw : IsSign signs w) (hrest : Follows (· ∉ signs) rest) :
    takeSign signs (w ++ rest) = (w, rest) := by
  rcases hw with rfl | ⟨c, hc, rfl⟩
  · cases rest with
    | nil => rfl
    | cons c rest => exact if_neg (hrest c rfl)
  · exact if_pos hc

theorem takeWhole_spec (t : PyText) : t = (takeWhole t).1 ++ (takeWhole t).2 ∧
    ((takeWhole t).1 = [] ∨ IsWhole (takeWhole t).1) := by
  cases t with
  | nil => exact ⟨rfl, .inl rfl⟩
  | cons c t =>
    rw [takeWhole]
    split
    · rename_i hc
      exact ⟨rfl, .inr (.inl (by rw [hc]))⟩
    · rename_i hc
      refine ⟨List.takeWhile_append_dropWhile.symm, ?_⟩
      by_cases hnil : (c :: t).takeWhile isDigit = []
      · exact .inl hnil
      · refine .inr (.inr ⟨digits_takeWhile hnil, fun hhead => hc ?_⟩)
        rw [List.takeWhile_cons] at hhead hnil
        split at hhead
        · simpa using hhead
        · simp at hhead

theorem takeWhole_append (hw : IsWhole w) (hrest : Follows (fun c => isDigit c = false) rest) :
    takeWhole (w ++ rest) = (w, rest) := by
  rcases hw with rfl | ⟨⟨hne, hds⟩, hzero⟩
  · rw [List.singleton_append, takeWhole, if_pos rfl]
  · obtain ⟨htake, hdrop⟩ := span_digits hds hrest
    cases w with
    | nil => exact absurd rfl hne
    | cons c w =>
      rw [List.cons_append] at htake hdrop ⊢
      rw [takeWhole, if_neg (by simpa using hzero), htake, hdrop]

theorem takeFraction_spec (t : PyText) : t = (takeFraction t).1 ++ (takeFraction t).2 ∧
    IsFraction (takeFraction t).1 := by
  cases t with
  | nil => exact ⟨rfl, .inl rfl⟩
  | cons c t =>
    rw [takeFraction]
    split
    · rename_i h
      refine ⟨?_, .inr ⟨_, digits_takeWhile h.2, by rw [h.1]⟩⟩
      rw [List.cons_append, List.takeWhile_append_dropWhile]
    · exact ⟨rfl, .inl rfl⟩

theorem takeFraction_append (hw : IsFraction w)
    (hrest : Follows (fun c => isDigit c = false ∧ c ≠ char '.') rest) :
    takeFraction (w ++ rest) = (w, rest) := by
  rcases hw with rfl | ⟨ds, hds, rfl⟩
  · cases rest with
    | nil => rfl
    | cons c rest => exact if_neg fun h => (hrest c rfl).2 h.1
  · obtain ⟨htake, hdrop⟩ := span_digits hds.2 fun c hc => (hrest c hc).1
    rw [List.cons_append, takeFraction, htake, hdrop, if_pos ⟨rfl, hds.1⟩]

theorem takeExponent_spec (t : PyText) : t = (takeExponent t).1 ++ (takeExponent t).2 ∧
    IsExponent (takeExponent t).1 := by
  cases t with
  | nil => exact ⟨rfl, .inl rfl⟩
  | cons c t =>
    obtain ⟨hsplit, hsign⟩ := takeSign_spec [char '+', char '-'] t
    simp only [takeExponent]
    split
    · rename_i h
      refine ⟨?_, .inr ⟨c, _, _, h.1, hsign, digits_takeWhile h.2, rfl⟩⟩
      simp only [List.cons_append, List.append_assoc, List.takeWhile_append_dropWhile]
      rw [← hsplit]
    · exact ⟨rfl, .inl rfl⟩

theorem takeExponent_append (hw : IsExponent w)
    (hrest : Follows (fun c => isDigit c = false ∧ c ≠ char 'e' ∧ c ≠ char 'E') rest) :
    takeExponent (w ++ rest) = (w, rest) := by
  rcases hw with rfl | ⟨e, sign, ds, he, hsign, hds, rfl⟩
  · cases rest with
    | nil => rfl
    | cons c rest =>
      refine if_neg fun h => ?_
      obtain ⟨-, hne, hne'⟩ := hrest c rfl
      exact h.1.elim hne hne'
  · obtain ⟨htake, hdrop⟩ := span_digits hds.2 fun c hc => (hrest c hc).1
    have hdigit : Follows (· ∉ [char '+', char '-']) (ds ++ rest) := by
      intro c hc hmem
      cases ds with
      | nil => exact hds.1 rfl
      | cons d ds =>
        obtain rfl : d = c := by simpa using hc
        have := hds.2 d (by simp)
        revert this
        rcases List.mem_pair.mp hmem with rfl | rfl <;> decide
    simp only [List.cons_append, List.append_assoc, takeExponent,
      takeSign_append hsign hdigit, htake, hdrop]
    rw [if_pos ⟨he, hds.1⟩]

/-- What may follow a value. -/
def Next (c : CodePoint) : Prop :=
  isBlank c = true ∨ c = char ',' ∨ c = char ']' ∨ c = char '}'

theorem Next.not_number {c : CodePoint} (h : Next c) :
    isDigit c = false ∧ c ≠ char '.' ∧ c ≠ char 'e' ∧ c ≠ char 'E' := by
  have hall : ∀ d ∈ [char ' ', char '\t', char '\n', char '\r', char ',', char ']', char '}'],
      isDigit d = false ∧ d ≠ char '.' ∧ d ≠ char 'e' ∧ d ≠ char 'E' := by
    decide
  refine hall c ?_
  rcases h with h | rfl | rfl | rfl
  · simp only [isBlank, Bool.or_eq_true, decide_eq_true_eq] at h
    rcases h with ((rfl | rfl) | rfl) | rfl <;> simp
  all_goals simp

section
variable [FloatReader]

inductive NumberText : Language CodePoint JsonVal
  | mk {sign whole fraction exponent : PyText} {v : JsonVal} (hsign : IsSign [char '-'] sign)
      (hwhole : IsWhole whole) (hfraction : IsFraction fraction) (hexponent : IsExponent exponent)
      (hv : numberValue sign whole fraction exponent = .ok v) :
      NumberText v (sign ++ (whole ++ (fraction ++ exponent)))

theorem sound_scanNumber : Sound scanNumber NumberText := by
  intro t v rest hs
  obtain ⟨ht, hsign⟩ := takeSign_spec [char '-'] t
  obtain ⟨ht₁, hwhole⟩ := takeWhole_spec (takeSign [char '-'] t).2
  obtain ⟨ht₂, hfraction⟩ := takeFraction_spec (takeWhole (takeSign [char '-'] t).2).2
  obtain ⟨ht₃, hexponent⟩ :=
    takeExponent_spec (takeFraction (takeWhole (takeSign [char '-'] t).2).2).2
  simp only [scanNumber] at hs
  split at hs
  · cases hs
  · rename_i hne
    obtain ⟨v', hv, hs⟩ := bind_eq_ok.mp hs
    cases hs
    refine ⟨_, ?_, .mk hsign (hwhole.resolve_left hne) hfraction hexponent hv⟩
    simp only [List.append_assoc]
    rw [← ht₃, ← ht₂, ← ht₁, ← ht]

omit [FloatReader] in
theorem IsWhole.begins (hw : IsWhole w) : ∃ c w', w = c :: w' ∧ isDigit c = true := by
  rcases hw with rfl | ⟨⟨hne, hds⟩, -⟩
  · exact ⟨_, _, rfl, by decide⟩
  · cases w with
    | nil => exact absurd rfl hne
    | cons c w => exact ⟨c, w, rfl, hds c (by simp)⟩

theorem NumberText.begins (h : NumberText v w) :
    ∃ c w', w = c :: w' ∧ (isDigit c = true ∨ c = char '-') := by
  obtain ⟨hsign, hwhole, -, -, -⟩ := h
  rcases hsign with rfl | ⟨c, hc, rfl⟩
  · obtain ⟨d, w', rfl, hd⟩ := hwhole.begins
    exact ⟨d, _, rfl, .inl hd⟩
  · exact ⟨c, _, rfl, .inr (List.mem_singleton.mp hc)⟩

theorem takes_scanNumber (hrest : Follows Next rest) (h : NumberText v w) :
    scanNumber (w ++ rest) = .ok (v, rest) := by
  obtain ⟨hsign, hwhole, hfraction, hexponent, hv⟩ := h
  rename_i sign whole fraction exponent
  -- What follows each of the four parts cannot be read as more of it.
  have hend : Follows (fun c => isDigit c = false ∧ c ≠ char '.' ∧ c ≠ char 'e' ∧ c ≠ char 'E')
      rest := fun c hc => (hrest c hc).not_number
  have hexp := takeExponent_append hexponent fun c hc => ⟨(hend c hc).1, (hend c hc).2.2⟩
  have hmark : Follows (fun c => isDigit c = false ∧ c ≠ char '.') (exponent ++ rest) := by
    rcases hexponent with rfl | ⟨e, _, _, he, -, -, rfl⟩
    · exact fun c hc => ⟨(hend c hc).1, (hend c hc).2.1⟩
    · intro c hc
      obtain rfl : e = c := by simpa using hc
      rcases he with rfl | rfl <;> decide
  have hfrac := takeFraction_append hfraction hmark
  have hpoint : Follows (fun c => isDigit c = false) (fraction ++ (exponent ++ rest)) := by
    rcases hfraction with rfl | ⟨ds, -, rfl⟩
    · exact fun c hc => (hmark c hc).1
    · intro c hc
      obtain rfl : char '.' = c := by simpa using hc
      decide
  have hwh := takeWhole_append hwhole hpoint
  obtain ⟨d, whole', rfl, hd⟩ := hwhole.begins
  have hdigit : Follows (· ∉ [char '-']) (d :: whole' ++ (fraction ++ (exponent ++ rest))) := by
    intro c hc hmem
    obtain rfl : d = c := by simpa using hc
    obtain rfl := List.mem_singleton.mp hmem
    revert hd
    decide
  simp only [scanNumber, List.append_assoc, takeSign_append hsign hdigit, hwh, hfrac, hexp, hv]
  rfl

end

/-! ## Strings -/

inductive PieceText : Language CodePoint Piece
  | plain {c : CodePoint} (hc : c ≠ backslash) (hquote : c ≠ quote) (hprint : 32 ≤ c.ord) :
      PieceText (.plain c) [c]
  | simple {e x : CodePoint} (he : simpleEscapes.lookup e = some x) :
      PieceText (.plain x) [backslash, e]
  | unit {a b c d x : CodePoint} (hx : hexUnit a b c d = some x) :
      PieceText (.unit x) [backslash, char 'u', a, b, c, d]

inductive StringText : Language CodePoint PyText
  | mk {pieces : List Piece} {w : PyText} (h : UpTo PieceText quote pieces w) :
      StringText (joinUnits pieces) (quote :: w)

theorem sound_nextPiece : Sound nextPiece PieceText := by
  intro t p rest hs
  cases t with
  | nil => cases hs
  | cons c t =>
    rw [nextPiece] at hs
    split at hs
    · rename_i hc
      subst hc
      cases t with
      | nil => cases hs
      | cons e t =>
        rw [scanEscape] at hs
        split at hs
        · rename_i x hx
          cases hs
          exact ⟨_, rfl, .simple hx⟩
        · split at hs
          · rename_i hu
            subst hu
            rw [scanUnit.eq_def] at hs
            split at hs
            · split at hs
              · rename_i x hx
                cases hs
                exact ⟨_, rfl, .unit hx⟩
              · cases hs
            · cases hs
          · cases hs
    · rename_i hc
      split at hs
      · cases hs
      · rename_i hplain
        rw [not_or, not_lt] at hplain
        cases hs
        exact ⟨[c], rfl, .plain hc hplain.1 hplain.2⟩

theorem takes_nextPiece : Takes (fun _ => True) False nextPiece PieceText := by
  intro p w rest hp _
  refine .inl ?_
  cases hp with
  | plain hc hquote hprint =>
    have hplain := not_or.mpr ⟨hquote, not_lt.mpr hprint⟩
    rw [List.singleton_append, nextPiece, if_neg hc, if_neg hplain]
  | simple he => simp only [List.cons_append, nextPiece, if_pos, scanEscape, he, List.nil_append]
  | unit hx =>
    have hu : simpleEscapes.lookup (char 'u') = none := by decide
    simp only [List.cons_append, nextPiece, if_pos, scanEscape, hu, scanUnit, hx, List.nil_append]

theorem begins_pieceText : Begins (· ≠ quote) PieceText := by
  intro p w hp
  cases hp with
  | plain hc hquote hprint => exact ⟨_, _, rfl, hquote⟩
  | simple | unit => exact ⟨_, _, rfl, by decide⟩

theorem sound_scanString : Sound scanString StringText := by
  intro t s rest hs
  cases t with
  | nil => cases hs
  | cons c t =>
    rw [scanString] at hs
    split at hs
    · rename_i hc
      obtain ⟨⟨pieces, t'⟩, hupTo, hs⟩ := bind_eq_ok.mp hs
      cases hs
      obtain ⟨w, hw, hpieces⟩ := sound_upTo sound_nextPiece _ _ _ _ hupTo
      exact ⟨quote :: w, by rw [hc, hw, List.cons_append], .mk hpieces⟩
    · cases hs

theorem takes_scanString : Takes (fun _ => True) False scanString StringText := by
  intro s w rest h _
  obtain ⟨hpieces⟩ := h
  rename_i pieces w
  have hlt := hpieces.length_lt begins_pieceText
  have htake := (takes_upTo (n := (w ++ rest).length) takes_nextPiece begins_pieceText hpieces
    (by rw [List.length_append]; omega) rest).resolve_right (by simp)
  refine .inl ?_
  rw [List.cons_append, scanString, if_pos rfl, htake]
  rfl

/-! ## Values -/

section
variable [FloatReader]

/-- A value in which nothing is nested. -/
inductive Scalar : Language CodePoint JsonVal
  | constant {w : PyText} {v : JsonVal} (h : (w, v) ∈ constants) : Scalar v w
  | number {w : PyText} {v : JsonVal} (h : NumberText v w) : Scalar v w
  | string {w s : PyText} (h : StringText s w) : Scalar (.str s) w

/-- An array or an object of values of a language. -/
inductive Compound (L : Language CodePoint JsonVal) : Language CodePoint JsonVal
  | list {l : List JsonVal} {w : PyText}
      (h : Bracketed L isBlank (char ',') (char ']') l w) : Compound L (.list l) (char '[' :: w)
  | dict {l : List (PyText × JsonVal)} {w : PyText}
      (h : Bracketed (Pair StringText L isBlank (char ':')) isBlank (char ',') (char '}') l w) :
      Compound L (.dict (dictOf l)) (char '{' :: w)

/-- The values nested no deeper than a number, and their texts. -/
def Spells : ℕ → Language CodePoint JsonVal
  | 0 => Scalar
  | depth + 1 => fun v w => Scalar v w ∨ Compound (Spells depth) v w

/-- A value with blanks around it. -/
def Document (depth : ℕ) (v : JsonVal) (t : PyText) : Prop :=
  ∃ b w b', t = b ++ (w ++ b') ∧ Blanks isBlank b ∧ Blanks isBlank b' ∧ Spells depth v w

/-- What a value begins with. -/
def First (c : CodePoint) : Prop :=
  isBlank c = false ∧ c ≠ char ',' ∧ c ≠ char ']' ∧ c ≠ char '}'

variable {enter : Except Error (Scan CodePoint JsonVal)} {value : Scan CodePoint JsonVal}
  {L : Language CodePoint JsonVal} {may : Prop}

/-- A number begins with no mark and no blank. -/
theorem NumberText.begins_of (h : NumberText v w) (marks : List CodePoint)
    (hmarks : ∀ d ∈ marks, isDigit d = false ∧ d ≠ char '-') :
    ∃ c w', w = c :: w' ∧ c ∉ marks := by
  obtain ⟨c, w', hw, hc⟩ := h.begins
  refine ⟨c, w', hw, fun hmem => ?_⟩
  obtain ⟨hdigit, hminus⟩ := hmarks c hmem
  rcases hc with hc | hc
  · rw [hdigit] at hc
    cases hc
  · exact hminus hc

theorem Scalar.begins (h : Scalar v w) : ∃ c w', w = c :: w' ∧ First c ∧ c ≠ char '[' ∧
    c ≠ char '{' := by
  cases h with
  | constant h =>
    have hall : ∀ p ∈ constants.map Prod.fst, p = (p.head?.getD quote) :: p.tail ∧
        First (p.head?.getD quote) ∧ p.head?.getD quote ≠ char '[' ∧
          p.head?.getD quote ≠ char '{' := by
      unfold First
      decide
    exact ⟨_, _, hall w (List.mem_map_of_mem h)⟩
  | number h =>
    obtain ⟨c, w', hw, hc⟩ := h.begins_of [char ' ', char '\t', char '\n', char '\r',
      char ',', char ']', char '}', char '[', char '{'] (by decide)
    simp only [List.mem_cons, List.not_mem_nil, or_false, not_or] at hc
    refine ⟨c, w', hw, ⟨?_, ?_, ?_, ?_⟩, ?_, ?_⟩
    · simp [isBlank, hc]
    all_goals simp [hc]
  | string h =>
    obtain ⟨h⟩ := h
    exact ⟨_, _, rfl, by unfold First; decide⟩

theorem begins_spells (depth : ℕ) : Begins First (Spells depth) := by
  have hscalar : ∀ v w, Scalar v w → ∃ c t, w = c :: t ∧ First c := by
    intro v w h
    obtain ⟨c, t, hw, hc, -⟩ := h.begins
    exact ⟨c, t, hw, hc⟩
  intro v w h
  cases depth with
  | zero => exact hscalar v w h
  | succ depth =>
    rcases h with h | h
    · exact hscalar v w h
    · cases h with
      | list | dict => exact ⟨_, _, rfl, by unfold First; decide⟩

theorem sound_scanOnce (h : ∀ value, enter = .ok value → Sound value L) :
    Sound (scanOnce enter)
      fun v w => Scalar v w ∨ (∃ value, enter = .ok value) ∧ Compound L v w := by
  intro t v rest hs
  cases t with
  | nil => cases hs
  | cons c t =>
    rw [scanOnce] at hs
    split at hs
    · obtain ⟨⟨s, t'⟩, hstring, hs⟩ := bind_eq_ok.mp hs
      cases hs
      obtain ⟨w, hw, hs⟩ := sound_scanString _ _ _ hstring
      exact ⟨w, hw, .inl (.string hs)⟩
    · split at hs
      · rename_i hc
        obtain ⟨value, hvalue, hs⟩ := bind_eq_ok.mp hs
        obtain ⟨⟨l, t'⟩, hbracketed, hs⟩ := bind_eq_ok.mp hs
        cases hs
        obtain ⟨w, hw, hl⟩ :=
          sound_bracketed (sound_pair sound_scanString (h value hvalue)) _ _ _ hbracketed
        exact ⟨_, by rw [hw, hc, List.cons_append], .inr ⟨⟨value, hvalue⟩, .dict hl⟩⟩
      · split at hs
        · rename_i hc
          obtain ⟨value, hvalue, hs⟩ := bind_eq_ok.mp hs
          obtain ⟨⟨l, t'⟩, hbracketed, hs⟩ := bind_eq_ok.mp hs
          cases hs
          obtain ⟨w, hw, hl⟩ := sound_bracketed (h value hvalue) _ _ _ hbracketed
          exact ⟨_, by rw [hw, hc, List.cons_append], .inr ⟨⟨value, hvalue⟩, .list hl⟩⟩
        · split at hs
          · rename_i p hconstant
            cases hs
            obtain ⟨⟨w, v'⟩, hmem, hfound⟩ := List.exists_of_findSome?_eq_some hconstant
            split at hfound
            · rename_i hle
              cases hfound
              exact ⟨w, (List.prefix_iff_eq_append.mp hle).symm, .inl (.constant hmem)⟩
            · cases hfound
          · obtain ⟨w, hw, hv⟩ := sound_scanNumber _ _ _ hs
            exact ⟨w, hw, .inl (.number hv)⟩

theorem sound_scan (limit : ℕ) : Sound (scan limit) (Spells limit) := by
  induction limit with
  | zero =>
    refine (sound_scanOnce (L := Scalar) fun value h => by cases h).mono fun v w h => ?_
    exact h.resolve_right (by rintro ⟨⟨value, h⟩, -⟩; cases h)
  | succ limit ih =>
    refine (sound_scanOnce fun value hvalue => ?_).mono fun v w h => h.imp_right And.right
    cases hvalue
    exact ih

omit [FloatReader] in
/-- No constant is the beginning of another. -/
theorem scanConstant_append (h : (w, v) ∈ constants) (rest : PyText) :
    scanConstant (w ++ rest) = some (v, rest) := by
  have hapart : ∀ p ∈ constants.map Prod.fst, ∀ q ∈ constants.map Prod.fst, p <+: q → p = q := by
    decide
  have hnodup : (constants.map Prod.fst).Nodup := by decide
  cases hfound : scanConstant (w ++ rest) with
  | none =>
    have hnone := List.findSome?_eq_none_iff.mp hfound _ h
    rw [if_pos (List.prefix_append w rest)] at hnone
    cases hnone
  | some p =>
    obtain ⟨⟨w', v'⟩, hmem, hfound⟩ := List.exists_of_findSome?_eq_some hfound
    split at hfound
    · rename_i hw'
      cases hfound
      have hkeys := List.mem_map_of_mem (f := Prod.fst) h
      have hkeys' := List.mem_map_of_mem (f := Prod.fst) hmem
      have heq : w' = w := by
        rcases List.prefix_or_prefix_of_prefix hw' (List.prefix_append w rest) with hle | hle
        · exact hapart _ hkeys' _ hkeys hle
        · exact (hapart _ hkeys _ hkeys' hle).symm
      subst heq
      have hv := List.inj_on_of_nodup_map hnodup hmem h rfl
      cases hv
      rw [List.drop_left]
    · cases hfound

/-- No constant is the beginning of a number. -/
theorem scanConstant_number (h : NumberText v w) (rest : PyText) :
    scanConstant (w ++ rest) = none := by
  have hshape : ∀ p ∈ constants.map Prod.fst,
      p = p.headD quote :: p.tail.headD quote :: p.tail.tail ∧
        isDigit (p.headD quote) = false ∧ isDigit (p.tail.headD quote) = false := by
    decide
  cases hfound : scanConstant (w ++ rest) with
  | none => rfl
  | some p =>
    obtain ⟨⟨w', v'⟩, hmem, hfound⟩ := List.exists_of_findSome?_eq_some hfound
    split at hfound
    · rename_i hw'
      obtain ⟨s, hs⟩ := hw'
      obtain ⟨heq, hfirst, hsecond⟩ := hshape _ (List.mem_map_of_mem hmem)
      obtain ⟨hsign, hwhole, -, -, -⟩ := h
      obtain ⟨d, whole', rfl, hd⟩ := hwhole.begins
      rw [show w' = _ from heq] at hs
      rcases hsign with rfl | ⟨c, -, rfl⟩
      · simp only [List.nil_append, List.cons_append, List.cons.injEq] at hs
        rw [hs.1, hd] at hfirst
        cases hfirst
      · simp only [List.nil_append, List.cons_append, List.cons.injEq] at hs
        rw [hs.2.1, hd] at hsecond
        cases hsecond
    · cases hfound

theorem takes_scalar (h : Scalar v w) (hrest : Follows Next rest) :
    scanOnce enter (w ++ rest) = .ok (v, rest) := by
  obtain ⟨c, w', rfl, -, hlist, hdict⟩ := h.begins
  rw [List.cons_append, scanOnce]
  cases h with
  | constant h =>
    have hquote : ∀ p ∈ constants.map Prod.fst, p.head? ≠ some quote := by decide
    have hne : c ≠ quote := fun hc => hquote _ (List.mem_map_of_mem h) (by simp [hc])
    have hscan := scanConstant_append h rest
    rw [List.cons_append] at hscan
    rw [if_neg hne, if_neg hdict, if_neg hlist, hscan]
  | number h =>
    have hne : c ≠ quote := by
      obtain ⟨c', w'', heq, hc'⟩ := h.begins_of [quote] (by decide)
      cases heq
      simpa using hc'
    have hscan := scanConstant_number h rest
    have hnumber := takes_scanNumber hrest h
    rw [List.cons_append] at hscan hnumber
    rw [if_neg hne, if_neg hdict, if_neg hlist, hscan]
    exact hnumber
  | string h =>
    obtain ⟨hpieces⟩ := h
    have htake := (takes_scanString _ _ rest (.mk hpieces) fun _ _ => trivial).resolve_right
      (by simp)
    rw [List.cons_append] at htake
    rw [if_pos rfl, htake]
    rfl

omit [FloatReader] in
theorem marks_of {close : CodePoint} (hclose : close = char ']' ∨ close = char '}') :
    Marks isBlank (char ',') close Next where
  ne := by rcases hclose with rfl | rfl <;> decide
  sep_blank := by decide
  close_blank := by rcases hclose with rfl | rfl <;> decide
  follow_sep := .inr (.inl rfl)
  follow_close := .inr (.inr hclose)
  follow_blank _ hc := .inl hc

theorem takes_compound (h : Takes Next may value L) (hb : Begins First L) (hv : Compound L v w)
    (rest : PyText) : scanOnce (.ok value) (w ++ rest) = .ok (v, rest) ∨
      may ∧ scanOnce (.ok value) (w ++ rest) = .error .tooDeep := by
  cases hv with
  | @list l w hl =>
    have htake := takes_bracketed h (marks_of (.inl rfl))
      (fun v w hv => (hb v w hv).imp fun c => .imp fun t => .imp_right fun hc => ⟨hc.1, hc.2.2.1⟩)
    have hstep := htake.step (k := fun l t => .ok (JsonVal.list l, t)) hl
      (t := rest) (fun _ _ => trivial) (.inl rfl)
    rw [List.cons_append, scanOnce, if_neg (by decide), if_neg (by decide), if_pos rfl]
    exact hstep
  | @dict l w hl =>
    have hkey : Takes (fun _ => True) may scanString StringText := fun s w rest hs hrest =>
      (takes_scanString s w rest hs hrest).imp_right fun h => h.1.elim
    have hpair := takes_pair hkey h (show isBlank (char ':') = false by decide)
      fun v w hv => (hb v w hv).imp fun c => .imp fun t => .imp_right And.left
    have htake := takes_bracketed hpair (marks_of (.inr rfl)) fun p w hp => by
      obtain ⟨hs, -, -, -⟩ := hp
      obtain ⟨hs⟩ := hs
      exact ⟨_, _, rfl, by decide⟩
    have hstep := htake.step (k := fun l t => .ok (JsonVal.dict (dictOf l), t)) hl
      (t := rest) (fun _ _ => trivial) (.inl rfl)
    rw [List.cons_append, scanOnce, if_neg (by decide), if_pos rfl]
    exact hstep

/-- A value nested deeper than the scanner can call makes it give up. -/
theorem takes_scan (limit depth : ℕ) :
    Takes Next (limit < depth) (scan limit) (Spells depth) := by
  induction limit generalizing depth with
  | zero =>
    intro v w rest h hrest
    cases depth with
    | zero => exact .inl (takes_scalar h hrest)
    | succ depth =>
      rcases h with h | h
      · exact .inl (takes_scalar h hrest)
      · refine .inr ⟨depth.succ_pos, ?_⟩
        cases h with
        | list =>
          rw [List.cons_append, scan, scanOnce, if_neg (by decide), if_neg (by decide), if_pos rfl]
          rfl
        | dict =>
          rw [List.cons_append, scan, scanOnce, if_neg (by decide), if_pos rfl]
          rfl
  | succ limit ih =>
    intro v w rest h hrest
    cases depth with
    | zero => exact .inl (takes_scalar h hrest)
    | succ depth =>
      rcases h with h | h
      · exact .inl (takes_scalar h hrest)
      · exact (takes_compound (ih depth) (begins_spells depth) h rest).imp_right
          fun h => ⟨Nat.succ_lt_succ h.1, h.2⟩

/-! ## Documents -/

/-- A document is read, or it is nested deeper than the reader can call. -/
theorem decode_of_document {limit depth : ℕ} (h : Document depth v t) :
    decode limit t = .ok v ∨ limit < depth ∧ decode limit t = .error .tooDeep := by
  obtain ⟨b, w, b', rfl, hb, hb', hw⟩ := h
  have hnext : Follows Next b' := fun c hc => .inl (hb' c (List.mem_of_mem_head? hc))
  have hend : b'.dropWhile isBlank = [] := List.dropWhile_eq_nil_iff.mpr hb'
  have hstart : (b ++ (w ++ b')).dropWhile isBlank = w ++ b' := by
    obtain ⟨c, w', rfl, hc⟩ := begins_spells depth v w hw
    exact dropWhile_blanks hb hc.1 (w' ++ b')
  rw [decode, hstart]
  rcases takes_scan limit depth v w b' hw hnext with hs | ⟨hlt, hs⟩
  · refine .inl ?_
    rw [hs]
    exact if_pos hend
  · refine .inr ⟨hlt, ?_⟩
    rw [hs]
    rfl

/-- **The reader reads the documents that are nested no deeper than it can call**, and reads in
each what it means. -/
theorem decode_eq_ok_iff {limit : ℕ} : decode limit t = .ok v ↔ Document limit v t := by
  refine ⟨fun h => ?_, fun h => (decode_of_document h).resolve_right fun h => lt_irrefl _ h.1⟩
  obtain ⟨⟨v', rest⟩, hscan, h⟩ := bind_eq_ok.mp h
  split at h
  · rename_i hend
    cases h
    obtain ⟨w, hw, hv⟩ := sound_scan limit _ _ _ hscan
    refine ⟨_, w, rest, ?_, blanks_takeWhile isBlank t, List.dropWhile_eq_nil_iff.mp hend, hv⟩
    rw [← hw, List.takeWhile_append_dropWhile]
  · cases h

omit [FloatReader] in
/-- The opening brackets of a text, those within its strings too. -/
def brackets (t : PyText) : ℕ := t.countP fun c => c = char '[' ∨ c = char '{'

omit [FloatReader] in
theorem scanString_ne_tooDeep (t : PyText) : scanString t ≠ .error .tooDeep := by
  intro hs
  cases t with
  | nil => cases hs
  | cons c t =>
    rw [scanString] at hs
    split at hs
    · have hs := (bind_eq_error.mp hs).resolve_right (by rintro ⟨q, -, h⟩; cases h)
      obtain ⟨t', -, hpiece⟩ := passes_upTo (fun _ _ _ => sound_nextPiece.suffix) _ _ hs
      simp only [nextPiece.eq_def, scanEscape.eq_def, scanUnit.eq_def] at hpiece
      repeat' split at hpiece
      all_goals cases hpiece
    · cases hs

theorem scanNumber_ne_tooDeep (t : PyText) : scanNumber t ≠ .error .tooDeep := by
  intro hs
  simp only [scanNumber] at hs
  split at hs
  · cases hs
  · have hs := (bind_eq_error.mp hs).resolve_right (by rintro ⟨q, -, h⟩; cases h)
    rw [numberValue] at hs
    repeat' split at hs
    all_goals cases hs

/-- The reader gives up at an opening bracket, if it cannot call what is nested or that does. -/
theorem scanOnce_tooDeep (hvalue : ∀ value, enter = .ok value → Sound value L)
    (hs : scanOnce enter t = .error .tooDeep) :
    ∃ c t', t = c :: t' ∧ (c = char '[' ∨ c = char '{') ∧
      (enter = .error .tooDeep ∨ ∃ value, enter = .ok value ∧
        ∃ t'', t'' <:+ t' ∧ value t'' = .error .tooDeep) := by
  cases t with
  | nil => cases hs
  | cons c t =>
    rw [scanOnce] at hs
    split at hs
    · have hs := (bind_eq_error.mp hs).resolve_right (by rintro ⟨q, -, h⟩; cases h)
      exact absurd hs (scanString_ne_tooDeep _)
    · split at hs
      · rename_i hc
        refine ⟨c, t, rfl, .inr hc, ?_⟩
        rcases bind_eq_error.mp hs with hs | ⟨value, henter, hs⟩
        · exact .inl hs
        · have hs := (bind_eq_error.mp hs).resolve_right (by rintro ⟨q, -, h⟩; cases h)
          have hsound := hvalue value henter
          obtain ⟨t₁, ht₁, hs⟩ := passes_bracketed
            (fun _ _ _ => (sound_pair sound_scanString hsound).suffix) _ hs
          obtain ⟨t₂, ht₂, hs⟩ := passes_pair scanString_ne_tooDeep
            (fun _ _ _ => sound_scanString.suffix) _ hs
          exact .inr ⟨value, henter, t₂, ht₂.trans ht₁, hs⟩
      · split at hs
        · rename_i hc
          refine ⟨c, t, rfl, .inl hc, ?_⟩
          rcases bind_eq_error.mp hs with hs | ⟨value, henter, hs⟩
          · exact .inl hs
          · have hs := (bind_eq_error.mp hs).resolve_right (by rintro ⟨q, -, h⟩; cases h)
            obtain ⟨t₁, ht₁, hs⟩ := passes_bracketed
              (fun _ _ _ => (hvalue value henter).suffix) _ hs
            exact .inr ⟨value, henter, t₁, ht₁, hs⟩
        · split at hs
          · cases hs
          · exact absurd hs (scanNumber_ne_tooDeep _)

theorem lt_brackets_of_scan {limit : ℕ} (hs : scan limit t = .error .tooDeep) :
    limit < brackets t := by
  induction limit generalizing t with
  | zero =>
    obtain ⟨c, t', rfl, hc, -⟩ := scanOnce_tooDeep (L := Scalar) (fun _ h => by cases h) hs
    rw [brackets, List.countP_cons_of_pos (by simpa using hc)]
    omega
  | succ limit ih =>
    obtain ⟨c, t', rfl, hc, hdeep⟩ := scanOnce_tooDeep (L := Spells limit)
      (fun _ h => by cases h; exact sound_scan limit) hs
    obtain ⟨value, hvalue, t'', ht'', hs⟩ := hdeep.resolve_left (by simp)
    cases hvalue
    have hle : brackets t'' ≤ brackets t' := ht''.sublist.countP_le
    have hlt := ih hs
    rw [brackets, List.countP_cons_of_pos (by simpa using hc), ← brackets]
    omega

/-- **A text with no more opening brackets than the reader can call is read or refused.** -/
theorem lt_brackets_of_decode {limit : ℕ} (h : decode limit t = .error .tooDeep) :
    limit < brackets t := by
  rcases bind_eq_error.mp h with hs | ⟨p, -, hs⟩
  · have hlt := lt_brackets_of_scan hs
    have hle : brackets (t.dropWhile isBlank) ≤ brackets t :=
      (List.dropWhile_suffix isBlank).sublist.countP_le
    omega
  · split at hs <;> cases hs

end

end Json

end ReportTriage

import Mathlib.Data.List.Basic
import Mathlib.Data.List.TakeWhile
import Mathlib.Tactic.Common

/-!
# Scanners and the languages they read

A scanner takes a phrase from the front of a text and leaves the rest. A language says which texts
are phrases, and what each means. A scanner is right if what it takes is a phrase, and if it takes
every phrase whole, before whatever may follow one. It may also give up on a phrase that is nested
too deep; the same proof then says that it takes the phrase or gives up.

## Main definitions

* `Scanner.Sound`, `Scanner.Takes` — a scanner and its language.
* `Scanner.upTo`, `Scanner.pair`, `Scanner.bracketed` — items up to a mark, two items around a
  mark, and items in brackets, each with its language and the two rules.
-/

namespace Scanner

inductive Error
  | malformed
  | tooDeep
  deriving DecidableEq, Repr

abbrev Scan (β α : Type*) := List β → Except Error (α × List β)

/-- The phrases, each with what it means. -/
abbrev Language (β α : Type*) := α → List β → Prop

section
variable {α β γ : Type*}

theorem bind_eq_ok {x : Except Error α} {f : α → Except Error β} {b : β} :
    x.bind f = .ok b ↔ ∃ a, x = .ok a ∧ f a = .ok b := by
  cases x <;> simp [Except.bind]

theorem bind_eq_error {x : Except Error α} {f : α → Except Error β} {e : Error} :
    x.bind f = .error e ↔ x = .error e ∨ ∃ a, x = .ok a ∧ f a = .error e := by
  cases x <;> simp [Except.bind]

/-- What comes next, if anything does, is one of these. -/
def Follows (follow : β → Prop) (rest : List β) : Prop := ∀ c ∈ rest.head?, follow c

/-- What is taken is a phrase. -/
def Sound (scan : Scan β α) (L : Language β α) : Prop :=
  ∀ t a rest, scan t = .ok (a, rest) → ∃ w, t = w ++ rest ∧ L a w

/-- A phrase is taken whole before anything that may follow, or the scanner `may` give up. -/
def Takes (follow : β → Prop) (may : Prop) (scan : Scan β α) (L : Language β α) : Prop :=
  ∀ a w rest, L a w → Follows follow rest →
    scan (w ++ rest) = .ok (a, rest) ∨ may ∧ scan (w ++ rest) = .error .tooDeep

/-- No phrase is empty, and each begins with one of these. -/
def Begins (first : β → Prop) (L : Language β α) : Prop :=
  ∀ a w, L a w → ∃ c t, w = c :: t ∧ first c

/-- A scanner gives up only where another does, further on. -/
def Passes (inner : Scan β α) (scan : Scan β γ) : Prop :=
  ∀ t, scan t = .error .tooDeep → ∃ t', t' <:+ t ∧ inner t' = .error .tooDeep

variable {scan : Scan β α} {L M : Language β α} {follow : β → Prop} {may : Prop} {t rest : List β}
  {a : α}

theorem Sound.suffix (h : Sound scan L) (hs : scan t = .ok (a, rest)) : rest <:+ t := by
  obtain ⟨w, rfl, -⟩ := h t a rest hs
  exact List.suffix_append w rest

theorem Sound.mono (h : Sound scan L) (hLM : ∀ a w, L a w → M a w) : Sound scan M := by
  intro t a rest hs
  obtain ⟨w, hw, ha⟩ := h t a rest hs
  exact ⟨w, hw, hLM a w ha⟩

theorem Takes.step {k : α → List β → Except Error (γ × List β)} (h : Takes follow may scan L)
    {w t r : List β} (ha : L a w) (ht : Follows follow t) {c : γ}
    (hk : k a t = .ok (c, r) ∨ may ∧ k a t = .error .tooDeep) :
    ((scan (w ++ t)).bind fun p => k p.1 p.2) = .ok (c, r) ∨
      may ∧ ((scan (w ++ t)).bind fun p => k p.1 p.2) = .error .tooDeep := by
  rcases h a w t ha ht with hs | ⟨hmay, hs⟩
  · rw [hs]
    exact hk
  · rw [hs]
    exact .inr ⟨hmay, rfl⟩

/-! ## Items up to a mark -/

section
variable [DecidableEq β]

def upTo (next : Scan β α) (close : β) : ℕ → Scan β (List α)
  | _, [] => .error .malformed
  | 0, _ :: _ => .error .malformed
  | n + 1, c :: t =>
    if c = close then .ok ([], t)
    else (next (c :: t)).bind fun p => (upTo next close n p.2).bind fun q => .ok (p.1 :: q.1, q.2)

/-- The items, and the mark. -/
inductive UpTo (L : Language β α) (close : β) : Language β (List α)
  | nil : UpTo L close [] [close]
  | cons {a : α} {l : List α} {w v : List β} (ha : L a w) (hl : UpTo L close l v) :
      UpTo L close (a :: l) (w ++ v)

variable {next : Scan β α} {close : β} {n : ℕ} {l : List α} {w : List β}

theorem sound_upTo (h : Sound next L) (n : ℕ) : Sound (upTo next close n) (UpTo L close) := by
  induction n with
  | zero =>
    intro t l rest hs
    cases t <;> cases hs
  | succ n ih =>
    intro t l rest hs
    cases t with
    | nil => cases hs
    | cons c t =>
      rw [upTo] at hs
      split at hs
      · rename_i hc
        cases hs
        exact ⟨[close], by rw [hc, List.singleton_append], .nil⟩
      · obtain ⟨⟨a, t'⟩, hnext, hs⟩ := bind_eq_ok.mp hs
        obtain ⟨⟨l', t''⟩, hupTo, hs⟩ := bind_eq_ok.mp hs
        cases hs
        obtain ⟨w, hw, ha⟩ := h _ _ _ hnext
        obtain ⟨v, hv, hl⟩ := ih _ _ _ hupTo
        exact ⟨w ++ v, by rw [hw, List.append_assoc, ← hv], .cons ha hl⟩

omit [DecidableEq β] in
/-- The number of items is bounded by the length of the text. -/
theorem UpTo.length_lt (hb : Begins (· ≠ close) L) (h : UpTo L close l w) :
    l.length < w.length := by
  induction h with
  | nil => simp
  | cons ha hl ih =>
    obtain ⟨c, t, rfl, -⟩ := hb _ _ ha
    simp only [List.length_cons, List.length_append]
    omega

theorem takes_upTo (h : Takes (fun _ => True) may next L) (hb : Begins (· ≠ close) L)
    (hl : UpTo L close l w) (hn : l.length < n) (rest : List β) :
    upTo next close n (w ++ rest) = .ok (l, rest) ∨
      may ∧ upTo next close n (w ++ rest) = .error .tooDeep := by
  induction hl generalizing n with
  | nil =>
    obtain ⟨n, rfl⟩ : ∃ m, n = m + 1 := ⟨n - 1, by omega⟩
    exact .inl (if_pos rfl)
  | @cons a l w v ha hl ih =>
    obtain ⟨n, rfl⟩ : ∃ m, n = m + 1 := ⟨n - 1, by omega⟩
    have hstep := h.step (k := fun a t => (upTo next close n t).bind fun q => .ok (a :: q.1, q.2))
      (c := a :: l) (r := rest) ha (t := v ++ rest) (fun _ _ => trivial)
    obtain ⟨c, t, rfl, hc⟩ := hb _ _ ha
    rw [List.append_assoc, List.cons_append, upTo, if_neg hc]
    rw [List.cons_append] at hstep
    refine hstep ?_
    rcases ih (by simpa using hn) with hs | ⟨hmay, hs⟩
    · exact .inl (by rw [hs]; rfl)
    · exact .inr ⟨hmay, by rw [hs]; rfl⟩

theorem passes_upTo (hsuffix : ∀ t a rest, next t = .ok (a, rest) → rest <:+ t) (n : ℕ) :
    Passes next (upTo next close n) := by
  induction n with
  | zero =>
    intro t hs
    cases t <;> cases hs
  | succ n ih =>
    intro t hs
    cases t with
    | nil => cases hs
    | cons c t =>
      rw [upTo] at hs
      split at hs
      · cases hs
      · rcases bind_eq_error.mp hs with hs | ⟨⟨a, t₁⟩, hnext, hs⟩
        · exact ⟨_, List.suffix_rfl, hs⟩
        · have hs := (bind_eq_error.mp hs).resolve_right (by rintro ⟨q, -, h⟩; cases h)
          obtain ⟨t', ht', hdeep⟩ := ih _ hs
          exact ⟨t', ht'.trans (hsuffix _ _ _ hnext), hdeep⟩

end

/-! ## Blanks -/

def Blanks (blank : β → Bool) (b : List β) : Prop := ∀ c ∈ b, blank c = true

variable {blank : β → Bool} {b : List β}

theorem blanks_takeWhile (blank : β → Bool) (t : List β) : Blanks blank (t.takeWhile blank) :=
  fun _ hc => List.mem_takeWhile_imp hc

theorem dropWhile_blanks (hb : Blanks blank b) {c : β} (hc : blank c = false) (t : List β) :
    (b ++ c :: t).dropWhile blank = c :: t := by
  rw [List.dropWhile_append_of_pos hb]
  exact List.dropWhile_cons_of_neg (by simp [hc])

/-- What follows a phrase is blank or one of the marks. -/
theorem Follows.blanks (hb : Blanks blank b) {c : β} (hblank : ∀ c, blank c = true → follow c)
    (hc : follow c) (t : List β) : Follows follow (b ++ c :: t) := by
  intro d hd
  cases b with
  | nil =>
    cases hd
    exact hc
  | cons d' b =>
    cases hd
    exact hblank _ (hb _ (by simp))

/-! ## Two items around a mark -/

section
variable [DecidableEq β]

/-- The item after a mark, with blanks on both sides of the mark. -/
def afterMark (value : Scan β γ) (blank : β → Bool) (colon : β) : Scan β γ := fun t =>
  match t.dropWhile blank with
  | c :: t => if c = colon then value (t.dropWhile blank) else .error .malformed
  | [] => .error .malformed

def pair (key : Scan β α) (value : Scan β γ) (blank : β → Bool) (colon : β) : Scan β (α × γ) :=
  fun t => (key t).bind fun p =>
    (afterMark value blank colon p.2).bind fun q => .ok ((p.1, q.1), q.2)

inductive Pair (K : Language β α) (V : Language β γ) (blank : β → Bool) (colon : β) :
    Language β (α × γ)
  | mk {k : α} {v : γ} {w b b' w' : List β} (hk : K k w) (hb : Blanks blank b)
      (hb' : Blanks blank b') (hv : V v w') :
      Pair K V blank colon (k, v) (w ++ (b ++ colon :: (b' ++ w')))

variable {key : Scan β α} {value : Scan β γ} {K : Language β α} {V : Language β γ} {colon : β}

theorem dropWhile_of_afterMark {e : Except Error (γ × List β)} (he : e ≠ .error .malformed)
    (hs : afterMark value blank colon t = e) : ∃ t', t = t.takeWhile blank ++ colon :: t' ∧
      value (t'.dropWhile blank) = e := by
  rw [afterMark] at hs
  split at hs
  · rename_i c t' hdrop
    split at hs
    · rename_i hc
      refine ⟨t', ?_, hs⟩
      conv_lhs => rw [← List.takeWhile_append_dropWhile (p := blank) (l := t), hdrop, hc]
    · exact (he hs.symm).elim
  · exact (he hs.symm).elim

theorem sound_pair (hk : Sound key K) (hv : Sound value V) :
    Sound (pair key value blank colon) (Pair K V blank colon) := by
  intro t p rest hs
  obtain ⟨⟨k, t₁⟩, hkey, hs⟩ := bind_eq_ok.mp hs
  obtain ⟨⟨v, t₂⟩, hmark, hs⟩ := bind_eq_ok.mp hs
  cases hs
  obtain ⟨w, rfl, hw⟩ := hk _ _ _ hkey
  obtain ⟨t₃, ht₁, hvalue⟩ := dropWhile_of_afterMark (by simp) hmark
  obtain ⟨w', hw', hv'⟩ := hv _ _ _ hvalue
  have ht₃ : t₃ = t₃.takeWhile blank ++ (w' ++ t₂) := by
    conv_lhs => rw [← List.takeWhile_append_dropWhile (p := blank) (l := t₃), hw']
  refine ⟨w ++ (t₁.takeWhile blank ++ colon :: (t₃.takeWhile blank ++ w')), ?_,
    .mk hw (blanks_takeWhile blank t₁) (blanks_takeWhile blank t₃) hv'⟩
  simp only [List.append_assoc, List.cons_append]
  rw [← ht₃, ← ht₁]

theorem takes_pair (hk : Takes (fun _ => True) may key K) (hv : Takes follow may value V)
    (hcolon : blank colon = false) (hbegins : Begins (fun c => blank c = false) V) :
    Takes follow may (pair key value blank colon) (Pair K V blank colon) := by
  rintro _ _ rest ⟨hkey, hb, hb', hvalue⟩ hrest
  rename_i k v w b b' w'
  rw [List.append_assoc]
  refine hk.step (k := fun k t => (afterMark value blank colon t).bind fun q =>
    .ok ((k, q.1), q.2)) hkey (fun _ _ => trivial) ?_
  have hmark : afterMark value blank colon ((b ++ colon :: (b' ++ w')) ++ rest) =
      value (w' ++ rest) := by
    obtain ⟨c, t, rfl, hc⟩ := hbegins _ _ hvalue
    simp only [afterMark, List.append_assoc, List.cons_append, dropWhile_blanks hb hcolon,
      dropWhile_blanks hb' hc, if_pos]
  rw [hmark]
  exact hv.step (k := fun v t => .ok ((k, v), t)) hvalue hrest (.inl rfl)

theorem passes_pair (hkey : ∀ t, key t ≠ .error .tooDeep)
    (hsuffix : ∀ t a rest, key t = .ok (a, rest) → rest <:+ t) :
    Passes value (pair key value blank colon) := by
  intro t hs
  obtain ⟨⟨k, t₁⟩, hk, hs⟩ := (bind_eq_error.mp hs).resolve_left (hkey t)
  have hmark := (bind_eq_error.mp hs).resolve_right (by rintro ⟨q, -, h⟩; cases h)
  obtain ⟨t₂, ht₁, hvalue⟩ := dropWhile_of_afterMark (by simp) hmark
  have h₂ : t₂ <:+ t₁ := by
    rw [show t₁ = _ from ht₁]
    exact (List.suffix_cons colon t₂).trans (List.suffix_append _ _)
  exact ⟨_, ((List.dropWhile_suffix blank).trans h₂).trans (hsuffix _ _ _ hk), hvalue⟩

end

/-! ## Items in brackets -/

section
variable [DecidableEq β]

/-- The items after an opening bracket, one at least. -/
def items (item : Scan β α) (blank : β → Bool) (sep close : β) : ℕ → Scan β (List α)
  | 0, _ => .error .malformed
  | n + 1, t => (item t).bind fun p =>
    match p.2.dropWhile blank with
    | c :: t =>
      if c = close then .ok ([p.1], t)
      else if c = sep then
        (items item blank sep close n (t.dropWhile blank)).bind fun q => .ok (p.1 :: q.1, q.2)
      else .error .malformed
    | [] => .error .malformed

def bracketed (item : Scan β α) (blank : β → Bool) (sep close : β) : Scan β (List α) := fun t =>
  match t.dropWhile blank with
  | c :: t =>
    if c = close then .ok ([], t) else items item blank sep close (t.length + 1) (c :: t)
  | [] => .error .malformed

inductive Items (L : Language β α) (blank : β → Bool) (sep close : β) : Language β (List α)
  | one {a : α} {w b : List β} (ha : L a w) (hb : Blanks blank b) :
      Items L blank sep close [a] (w ++ (b ++ [close]))
  | cons {a : α} {l : List α} {w b b' v : List β} (ha : L a w) (hb : Blanks blank b)
      (hb' : Blanks blank b') (hl : Items L blank sep close l v) :
      Items L blank sep close (a :: l) (w ++ (b ++ sep :: (b' ++ v)))

/-- The items and the closing bracket. -/
inductive Bracketed (L : Language β α) (blank : β → Bool) (sep close : β) : Language β (List α)
  | nil {b : List β} (hb : Blanks blank b) : Bracketed L blank sep close [] (b ++ [close])
  | items {l : List α} {b w : List β} (hb : Blanks blank b) (hl : Items L blank sep close l w) :
      Bracketed L blank sep close l (b ++ w)

/-- The marks are no blanks and not the same. -/
structure Marks (blank : β → Bool) (sep close : β) (follow : β → Prop) : Prop where
  ne : sep ≠ close
  sep_blank : blank sep = false
  close_blank : blank close = false
  follow_sep : follow sep
  follow_close : follow close
  follow_blank : ∀ c, blank c = true → follow c

variable {item : Scan β α} {sep close : β} {n : ℕ} {l : List α} {w : List β}

theorem sound_items (h : Sound item L) (n : ℕ) :
    Sound (items item blank sep close n) (Items L blank sep close) := by
  induction n with
  | zero =>
    intro t l rest hs
    cases hs
  | succ n ih =>
    intro t l rest hs
    obtain ⟨⟨a, t₁⟩, hitem, hs⟩ := bind_eq_ok.mp hs
    obtain ⟨w, htext, hw⟩ := h _ _ _ hitem
    have hsplit : t₁ = t₁.takeWhile blank ++ t₁.dropWhile blank :=
      List.takeWhile_append_dropWhile.symm
    cases hdrop : t₁.dropWhile blank with
    | nil => simp [hdrop] at hs
    | cons c t₂ =>
      simp only [hdrop] at hs hsplit
      split at hs
      · rename_i hc
        cases hs
        refine ⟨w ++ (t₁.takeWhile blank ++ [close]), ?_, .one hw (blanks_takeWhile blank t₁)⟩
        simp only [List.append_assoc, List.singleton_append, ← hc]
        rw [htext, ← hsplit]
      · split at hs
        · rename_i hc
          obtain ⟨⟨l', t₃⟩, hitems, hs⟩ := bind_eq_ok.mp hs
          cases hs
          obtain ⟨v, hv, hl⟩ := ih _ _ _ hitems
          have ht₂ : t₂ = t₂.takeWhile blank ++ (v ++ t₃) := by
            conv_lhs => rw [← List.takeWhile_append_dropWhile (p := blank) (l := t₂), hv]
          refine ⟨w ++ (t₁.takeWhile blank ++ sep :: (t₂.takeWhile blank ++ v)), ?_,
            .cons hw (blanks_takeWhile blank t₁) (blanks_takeWhile blank t₂) hl⟩
          simp only [List.append_assoc, List.cons_append, ← hc]
          rw [htext, ← ht₂, ← hsplit]
        · cases hs

theorem sound_bracketed (h : Sound item L) :
    Sound (bracketed item blank sep close) (Bracketed L blank sep close) := by
  intro t l rest hs
  have hsplit : t = t.takeWhile blank ++ t.dropWhile blank :=
    List.takeWhile_append_dropWhile.symm
  rw [bracketed] at hs
  cases hdrop : t.dropWhile blank with
  | nil =>
    rw [hdrop] at hs
    cases hs
  | cons c t₁ =>
    simp only [hdrop] at hs hsplit
    split at hs
    · rename_i hc
      cases hs
      refine ⟨t.takeWhile blank ++ [close], ?_, .nil (blanks_takeWhile blank t)⟩
      rw [List.append_assoc, List.singleton_append, ← hc, ← hsplit]
    · obtain ⟨w, hw, hl⟩ := sound_items h _ _ _ _ hs
      refine ⟨t.takeWhile blank ++ w, ?_, .items (blanks_takeWhile blank t) hl⟩
      rw [List.append_assoc, ← hw, ← hsplit]

omit [DecidableEq β] in
theorem Items.length_lt {first : β → Prop} (hb : Begins first L)
    (h : Items L blank sep close l w) : l.length < w.length := by
  induction h with
  | one ha hblanks =>
    obtain ⟨c, t, rfl, -⟩ := hb _ _ ha
    simp only [List.length_cons, List.length_nil, List.length_append]
    omega
  | cons ha hblanks hblanks' hl ih =>
    obtain ⟨c, t, rfl, -⟩ := hb _ _ ha
    simp only [List.length_cons, List.length_append]
    omega

omit [DecidableEq β] in
theorem Items.begins {first : β → Prop} (hb : Begins first L) :
    Begins first (Items L blank sep close) := by
  intro l w h
  cases h with
  | one ha hblanks =>
    obtain ⟨c, t, rfl, hc⟩ := hb _ _ ha
    exact ⟨c, _, rfl, hc⟩
  | cons ha hblanks hblanks' hl =>
    obtain ⟨c, t, rfl, hc⟩ := hb _ _ ha
    exact ⟨c, _, rfl, hc⟩

theorem takes_items (h : Takes follow may item L) (hm : Marks blank sep close follow)
    (hb : Begins (fun c => blank c = false) L) (hl : Items L blank sep close l w)
    (hn : l.length ≤ n) (rest : List β) :
    items item blank sep close n (w ++ rest) = .ok (l, rest) ∨
      may ∧ items item blank sep close n (w ++ rest) = .error .tooDeep := by
  induction hl generalizing n with
  | @one a w b ha hblanks =>
    obtain ⟨n, rfl⟩ : ∃ m, n = m + 1 := ⟨n - 1, by simp at hn; omega⟩
    rcases h a w (b ++ close :: rest) ha
      (Follows.blanks hblanks hm.follow_blank hm.follow_close rest) with hs | ⟨hmay, hs⟩
    · refine .inl ?_
      simp only [List.append_assoc, List.singleton_append, items, hs, Except.bind,
        dropWhile_blanks hblanks hm.close_blank, if_pos]
    · refine .inr ⟨hmay, ?_⟩
      simp only [List.append_assoc, List.singleton_append, items, hs, Except.bind]
  | @cons a l w b b' v ha hblanks hblanks' hl ih =>
    obtain ⟨n, rfl⟩ : ∃ m, n = m + 1 := ⟨n - 1, by simp at hn; omega⟩
    have hdrop : (b' ++ (v ++ rest)).dropWhile blank = v ++ rest := by
      obtain ⟨c, t, rfl, hc⟩ := Items.begins hb _ _ hl
      exact dropWhile_blanks hblanks' hc _
    rcases h a w (b ++ sep :: (b' ++ (v ++ rest))) ha
      (Follows.blanks hblanks hm.follow_blank hm.follow_sep _) with hs | ⟨hmay, hs⟩
    · simp only [List.append_assoc, List.cons_append, items, hs, Except.bind,
        dropWhile_blanks hblanks hm.sep_blank, if_neg hm.ne, if_pos, hdrop]
      rcases ih (by simpa using hn) with hs | ⟨hmay, hs⟩
      · exact .inl (by rw [hs])
      · exact .inr ⟨hmay, by rw [hs]⟩
    · refine .inr ⟨hmay, ?_⟩
      simp only [List.append_assoc, List.cons_append, items, hs, Except.bind]

theorem takes_bracketed (h : Takes follow may item L) (hm : Marks blank sep close follow)
    (hb : Begins (fun c => blank c = false ∧ c ≠ close) L) :
    Takes (fun _ => True) may (bracketed item blank sep close)
      (Bracketed L blank sep close) := by
  intro l w rest hl _
  cases hl with
  | nil hblanks =>
    refine .inl ?_
    simp only [bracketed, List.append_assoc, List.singleton_append,
      dropWhile_blanks hblanks hm.close_blank, if_pos]
  | @items _ b w hblanks hl =>
    have htake := takes_items (n := (w ++ rest).length) h hm
      (fun a w ha => (hb a w ha).imp fun c => .imp fun t => .imp_right And.left) hl
      (by have := hl.length_lt hb; simp; omega) rest
    obtain ⟨c, t, rfl, hc, hne⟩ := Items.begins hb _ _ hl
    simp only [List.cons_append, List.length_cons] at htake
    simpa only [bracketed, List.append_assoc, List.cons_append, dropWhile_blanks hblanks hc,
      if_neg hne] using htake

theorem passes_items (hsuffix : ∀ t a rest, item t = .ok (a, rest) → rest <:+ t) (n : ℕ) :
    Passes item (items item blank sep close n) := by
  induction n with
  | zero =>
    intro t hs
    cases hs
  | succ n ih =>
    intro t hs
    rcases bind_eq_error.mp hs with hs | ⟨⟨a, t₁⟩, hitem, hs⟩
    · exact ⟨t, List.suffix_rfl, hs⟩
    · have h₁ := hsuffix _ _ _ hitem
      have hdropped := List.dropWhile_suffix blank (l := t₁)
      cases hdrop : t₁.dropWhile blank with
      | nil => simp [hdrop] at hs
      | cons c t₂ =>
        rw [hdrop] at hdropped
        simp only [hdrop] at hs
        split at hs
        · cases hs
        · split at hs
          · have hs := (bind_eq_error.mp hs).resolve_right (by rintro ⟨q, -, h⟩; cases h)
            obtain ⟨t', ht', hdeep⟩ := ih _ hs
            exact ⟨t', ((ht'.trans (List.dropWhile_suffix blank)).trans
              (List.suffix_cons c t₂)).trans (hdropped.trans h₁), hdeep⟩
          · cases hs

theorem passes_bracketed (hsuffix : ∀ t a rest, item t = .ok (a, rest) → rest <:+ t) :
    Passes item (bracketed item blank sep close) := by
  intro t hs
  have hdropped := List.dropWhile_suffix blank (l := t)
  rw [bracketed] at hs
  cases hdrop : t.dropWhile blank with
  | nil => simp [hdrop] at hs
  | cons c t₁ =>
    rw [hdrop] at hdropped
    simp only [hdrop] at hs
    split at hs
    · cases hs
    · obtain ⟨t', ht', hdeep⟩ := passes_items hsuffix _ _ hs
      exact ⟨t', ht'.trans hdropped, hdeep⟩

end
end

end Scanner

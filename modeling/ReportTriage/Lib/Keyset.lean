import Mathlib.Data.List.Sort
import ReportTriage.Lib.Machine

/-!
# Keyset pagination

A listing is read page by page, greatest key first. A page is asked for by the key of the last
row of the page before, its cursor, and holds the next rows below it; one row more is looked
for, to know whether another page follows. There is no snapshot: between two pages rows may
be written, removed or added.

A scan in which every row that is new since its start lies above all rows of its start shows
no row twice and misses none that stays.

## Main definitions

* `Keyset.page`, `isPage_page` — a page, and everything the proofs use of one.
* `Keyset.machine` — a scan, and the writes between its pages.
* `Keyset.Valid`, `valid_of_reachable` — what has been shown and what is still to come.
* `Valid.nodup_shown`, `Valid.shown_of_finished`, `Valid.length_pages_le` — no row twice, none
  missed, an end.
* `Valid.perm_of_unchanged` — a scan without writes shows the whole table.
-/

namespace Keyset
variable {ρ κ : Type} [LinearOrder κ] (key : ρ → κ)

/-! ## Pages -/

/-- `ORDER BY key DESC`. -/
def descending (rows : List ρ) : List ρ := rows.insertionSort fun a b => key b ≤ key a

/-- `WHERE key < cursor`. -/
def below (cursor : Option κ) (rows : List ρ) : List ρ :=
  rows.filter fun r => cursor.all fun c => key r < c

structure Page (ρ κ : Type) where
  rows : List ρ
  /-- The cursor of the page that follows. -/
  next : Option κ

def page (limit : ℕ) (cursor : Option κ) (rows : List ρ) : Page ρ κ :=
  let found := (descending key (below key cursor rows)).take (limit + 1)
  let kept := found.take limit
  { rows := kept
    next := if limit < found.length then kept.getLast?.map key else none }

/-- **What a page owes to the rows below its cursor.** -/
structure IsPage (limit : ℕ) (candidates : List ρ) (p : Page ρ κ) : Prop where
  length_le : p.rows.length ≤ limit
  sorted : p.rows.Pairwise fun a b => key b < key a
  subset : ∀ r ∈ p.rows, r ∈ candidates
  last : p.next = none → ∀ r ∈ candidates, r ∈ p.rows
  cursor : ∀ c, p.next = some c → (∃ r ∈ p.rows, key r = c) ∧ (∀ r ∈ p.rows, c ≤ key r) ∧
    ∀ r ∈ candidates, r ∈ p.rows ∨ key r < c

variable {key}

theorem mem_descending {rows : List ρ} {r : ρ} : r ∈ descending key rows ↔ r ∈ rows :=
  List.mem_insertionSort _

theorem mem_below {cursor : Option κ} {rows : List ρ} {r : ρ} :
    r ∈ below key cursor rows ↔ r ∈ rows ∧ ∀ c, cursor = some c → key r < c := by
  cases cursor <;> simp [below]

theorem sorted_descending {rows : List ρ} (h : (rows.map key).Nodup) :
    (descending key rows).Pairwise fun a b => key b < key a := by
  have hsorted : (descending key rows).Pairwise fun a b => key b ≤ key a := by
    have : IsTrans ρ fun a b => key b ≤ key a := ⟨fun _ _ _ hab hbc => hbc.trans hab⟩
    have : Std.Total fun a b : ρ => key b ≤ key a := ⟨fun a b => le_total (key b) (key a)⟩
    exact List.pairwise_insertionSort _ rows
  have hdistinct : (descending key rows).Pairwise fun a b => key a ≠ key b :=
    List.pairwise_map.mp (((List.perm_insertionSort _ rows).map key).nodup_iff.mpr h)
  exact hsorted.imp₂ (fun _ _ hle hne => lt_of_le_of_ne hle (Ne.symm hne)) hdistinct

theorem isPage_page {limit : ℕ} (hlimit : 0 < limit) {rows : List ρ} (h : (rows.map key).Nodup)
    (cursor : Option κ) :
    IsPage key limit (below key cursor rows) (page key limit cursor rows) := by
  have hdistinct : ((below key cursor rows).map key).Nodup :=
    h.sublist (List.filter_sublist.map key)
  have hsorted := sorted_descending hdistinct
  have hmem : ∀ r, r ∈ below key cursor rows ↔ r ∈ descending key (below key cursor rows) :=
    fun r => mem_descending.symm
  unfold page
  generalize descending key (below key cursor rows) = l at hsorted hmem
  have hsplit := List.take_append_drop limit l
  have htake : (l.take (limit + 1)).take limit = l.take limit := by
    rw [List.take_take, Nat.min_eq_left (Nat.le_succ limit)]
  have hmore : limit < (l.take (limit + 1)).length ↔ limit < l.length := by
    rw [List.length_take]
    omega
  simp only [htake, hmore]
  refine ⟨List.length_take_le .., hsorted.sublist (List.take_sublist ..),
    fun r hr => (hmem r).mpr (List.mem_of_mem_take hr), ?_, ?_⟩
  · intro hnext r hr
    have hle : l.length ≤ limit := by
      by_contra hlt
      rw [if_pos (by omega), Option.map_eq_none_iff, List.getLast?_eq_none_iff,
        List.take_eq_nil_iff] at hnext
      rcases hnext with hzero | rfl
      · omega
      · simp at hlt
    rw [List.take_of_length_le hle]
    exact (hmem r).mp hr
  · intro c hnext
    split_ifs at hnext
    obtain ⟨x, hx, rfl⟩ := Option.map_eq_some_iff.mp hnext
    obtain ⟨init, hinit⟩ := List.getLast?_eq_some_iff.mp hx
    have hlast : x ∈ l.take limit := List.mem_of_getLast? hx
    rw [← hsplit, List.pairwise_append] at hsorted
    obtain ⟨hkept, -, hrest⟩ := hsorted
    refine ⟨⟨x, hlast, rfl⟩, ?_, ?_⟩
    · intro r hr
      rw [hinit, List.pairwise_append] at hkept
      rw [hinit, List.mem_append, List.mem_singleton] at hr
      rcases hr with hr | rfl
      · exact (hkept.2.2 r hr x (List.mem_singleton.mpr rfl)).le
      · exact le_refl _
    · intro r hr
      rw [hmem, ← hsplit, List.mem_append] at hr
      exact hr.imp_right (hrest x hlast r)

/-- A page of images is the image of a page. -/
theorem page_map {ρ' : Type} (f : ρ → ρ') (key' : ρ' → κ) (hkey : ∀ r, key' (f r) = key r)
    (limit : ℕ) (cursor : Option κ) (rows : List ρ) :
    page key' limit cursor (rows.map f) =
      ⟨(page key limit cursor rows).rows.map f, (page key limit cursor rows).next⟩ := by
  have hbelow : below key' cursor (rows.map f) = (below key cursor rows).map f := by
    simp only [below, List.filter_map, Function.comp_def, hkey]
  have hsort : descending key' ((below key cursor rows).map f) =
      (descending key (below key cursor rows)).map f :=
    (List.map_insertionSort _ _ f _ fun a _ b _ => by rw [hkey, hkey]).symm
  simp only [page, hbelow, hsort, ← List.map_take, List.length_map, List.getLast?_map,
    Option.map_map, Function.comp_def, hkey]

/-! ## Scans -/

/-- A scan: the table when it began and now, and the pages shown so far. -/
structure Scan (ρ κ : Type) where
  start : List ρ
  rows : List ρ
  pages : List (List ρ)
  /-- The cursor of the next page, until there is none. -/
  next : Option κ

inductive Action (ρ : Type)
  | fetch
  /-- Other parties leave the table with these rows. -/
  | write (rows : List ρ)

namespace Scan

/-- The rows shown so far, in order. -/
def shown (s : Scan ρ κ) : List ρ := s.pages.flatten

variable (key) in
/-- Show the page at the cursor. -/
def turn (limit : ℕ) (s : Scan ρ κ) : Scan ρ κ :=
  let p := page key limit s.next s.rows
  { s with pages := s.pages ++ [p.rows], next := p.next }

variable (key) in
/-- The first page is asked for without a cursor. -/
def begin (limit : ℕ) (rows : List ρ) : Scan ρ κ := turn key limit ⟨rows, rows, [], none⟩

/-- A table the scan admits: what is new in it lies above all rows of the start. -/
def Admits (key : ρ → κ) (s : Scan ρ κ) (rows : List ρ) : Prop :=
  (rows.map key).Nodup ∧ ∀ r ∈ rows, r ∈ s.rows ∨ ∀ r₀ ∈ s.start, key r₀ < key r

instance [DecidableEq ρ] (s : Scan ρ κ) (rows : List ρ) : Decidable (s.Admits key rows) :=
  inferInstanceAs (Decidable (_ ∧ _))

variable (key) in
def step [DecidableEq ρ] (limit : ℕ) (s : Scan ρ κ) : Action ρ → Option (Scan ρ κ)
  | .fetch => if s.next.isSome then some (s.turn key limit) else none
  | .write rows => if s.Admits key rows then some { s with rows := rows } else none

end Scan

variable (key) in
/-- Scans of tables whose keys are distinct. -/
def machine [DecidableEq ρ] (limit : ℕ) : Machine (Scan ρ κ) (Action ρ) where
  init s := ∃ rows, (rows.map key).Nodup ∧ s = Scan.begin key limit rows
  step s a := s.step key limit a

/-! ### The invariant -/

variable (key) in
/-- What a scan owes before a page is shown: of the rows of the start, those still in the table
are shown or below the cursor; all rows below the cursor are rows of the start, and lie below
all rows shown. -/
structure Ready (limit : ℕ) (s : Scan ρ κ) : Prop where
  distinct : (s.rows.map key).Nodup
  late : ∀ r ∈ s.rows, r ∈ s.start ∨ ∀ r₀ ∈ s.start, key r₀ < key r
  shown_start : ∀ r ∈ s.shown, r ∈ s.start
  sorted : s.shown.Pairwise fun a b => key b < key a
  length_le : ∀ p ∈ s.pages, p.length ≤ limit
  count : s.pages.length ≤ s.shown.length
  below_start : ∀ r ∈ below key s.next s.rows, r ∈ s.start
  below_shown : ∀ a ∈ s.shown, ∀ r ∈ below key s.next s.rows, key r < key a
  covered : ∀ r ∈ s.start, r ∈ s.rows → r ∈ s.shown ∨ r ∈ below key s.next s.rows

variable (key) in
/-- The invariant between two pages. -/
structure Valid (limit : ℕ) (s : Scan ρ κ) : Prop where
  distinct : (s.rows.map key).Nodup
  late : ∀ r ∈ s.rows, r ∈ s.start ∨ ∀ r₀ ∈ s.start, key r₀ < key r
  shown_start : ∀ r ∈ s.shown, r ∈ s.start
  sorted : s.shown.Pairwise fun a b => key b < key a
  length_le : ∀ p ∈ s.pages, p.length ≤ limit
  /-- Every page but the last shows some row. -/
  count : s.pages.length ≤ s.shown.length + 1 ∧
    (s.next.isSome → s.pages.length ≤ s.shown.length)
  /-- The cursor is the key of some row of the start, and no row shown lies below it. -/
  position : ∀ c, s.next = some c → (∃ r ∈ s.start, key r = c) ∧ ∀ r ∈ s.shown, c ≤ key r
  /-- A row of the start that stays is shown or still below the cursor. -/
  covered : ∀ r ∈ s.start, r ∈ s.rows → r ∈ s.shown ∨ ∃ c, s.next = some c ∧ key r < c

variable {limit : ℕ} {s s' : Scan ρ κ}

theorem ready_init {rows : List ρ} (h : (rows.map key).Nodup) :
    Ready key limit ⟨rows, rows, [], none⟩ where
  distinct := h
  late _ hr := .inl hr
  shown_start := by simp [Scan.shown]
  sorted := by simp [Scan.shown]
  length_le := by simp
  count := by simp
  below_start r hr := (mem_below.mp hr).1
  below_shown := by simp [Scan.shown]
  covered r hr _ := .inr (mem_below.mpr ⟨hr, nofun⟩)

/-- While a cursor is there, a scan is ready for its next page. -/
theorem Valid.ready (h : Valid key limit s) (hnext : s.next.isSome) : Ready key limit s := by
  obtain ⟨c, hc⟩ := Option.isSome_iff_exists.mp hnext
  obtain ⟨⟨r₀, hr₀, rfl⟩, hshown⟩ := h.position c hc
  refine ⟨h.distinct, h.late, h.shown_start, h.sorted, h.length_le, h.count.2 hnext, ?_, ?_, ?_⟩
  · intro r hr
    obtain ⟨hrow, hlt⟩ := mem_below.mp hr
    rcases h.late r hrow with hstart | hlate
    · exact hstart
    · exact absurd (hlate r₀ hr₀) (hlt _ hc).asymm
  · intro a ha r hr
    exact ((mem_below.mp hr).2 _ hc).trans_le (hshown a ha)
  · intro r hr hrow
    rcases h.covered r hr hrow with hseen | ⟨c, hc', hlt⟩
    · exact .inl hseen
    · refine .inr (mem_below.mpr ⟨hrow, fun d hd => ?_⟩)
      rw [hc'] at hd
      cases hd
      exact hlt

/-- **Showing a page keeps the invariant.** -/
theorem Ready.turn (h : Ready key limit s) (hlimit : 0 < limit) :
    Valid key limit (s.turn key limit) := by
  have hp := isPage_page hlimit h.distinct s.next
  have hshown : (s.turn key limit).shown = s.shown ++ (page key limit s.next s.rows).rows := by
    simp [Scan.turn, Scan.shown]
  have hpages : (s.turn key limit).pages.length = s.pages.length + 1 := by simp [Scan.turn]
  have hnext : (s.turn key limit).next = (page key limit s.next s.rows).next := rfl
  refine ⟨h.distinct, h.late, ?_, ?_, ?_, ?_, ?_, ?_⟩
  · intro r hr
    rw [hshown, List.mem_append] at hr
    exact hr.elim (h.shown_start r) fun hr => h.below_start r (hp.subset r hr)
  · rw [hshown, List.pairwise_append]
    exact ⟨h.sorted, hp.sorted, fun a ha r hr => h.below_shown a ha r (hp.subset r hr)⟩
  · intro p hp'
    rcases List.mem_append.mp hp' with hold | hnew
    · exact h.length_le p hold
    · rw [List.mem_singleton.mp hnew]
      exact hp.length_le
  · rw [hpages, hshown, hnext, List.length_append]
    have hcount := h.count
    refine ⟨by omega, ?_⟩
    intro hsome
    obtain ⟨c, hc⟩ := Option.isSome_iff_exists.mp hsome
    obtain ⟨⟨r, hr, -⟩, -⟩ := hp.cursor c hc
    have := List.length_pos_of_mem hr
    omega
  · intro c hc
    obtain ⟨⟨r, hr, hkey⟩, hle, -⟩ := hp.cursor c (hnext ▸ hc)
    refine ⟨⟨r, h.below_start r (hp.subset r hr), hkey⟩, ?_⟩
    intro a ha
    rw [hshown, List.mem_append] at ha
    rcases ha with ha | ha
    · exact hkey ▸ (h.below_shown a ha r (hp.subset r hr)).le
    · exact hle a ha
  · intro r hr hrow
    rw [hshown, hnext]
    simp only [List.mem_append]
    rcases h.covered r hr hrow with hseen | hbelow
    · exact .inl (.inl hseen)
    · cases hc : (page key limit s.next s.rows).next with
      | none => exact .inl (.inr (hp.last hc r hbelow))
      | some c =>
        rcases (hp.cursor c hc).2.2 r hbelow with hseen | hlt
        · exact .inl (.inr hseen)
        · exact .inr ⟨c, rfl, hlt⟩

/-- So do the writes a scan admits: a row of the start that is there afterwards was there
before. -/
theorem Valid.write (h : Valid key limit s) {rows : List ρ} (hw : s.Admits key rows) :
    Valid key limit { s with rows := rows } where
  distinct := hw.1
  late r hr := (hw.2 r hr).elim (h.late r) .inr
  shown_start := h.shown_start
  sorted := h.sorted
  length_le := h.length_le
  count := h.count
  position := h.position
  covered r hr hrow := by
    rcases hw.2 r hrow with hold | hlate
    · exact h.covered r hr hold
    · exact absurd (hlate r hr) (lt_irrefl _)

section
variable [DecidableEq ρ]

theorem Valid.step (h : Valid key limit s) (hlimit : 0 < limit) {a : Action ρ}
    (hs : s.step key limit a = some s') : Valid key limit s' := by
  cases a with
  | fetch =>
    simp only [Scan.step] at hs
    split_ifs at hs with hnext
    exact Option.some.inj hs ▸ (h.ready hnext).turn hlimit
  | write rows =>
    simp only [Scan.step] at hs
    split_ifs at hs with hw
    exact Option.some.inj hs ▸ h.write hw

theorem valid_of_reachable (hlimit : 0 < limit) (hs : (machine key limit).Reachable s) :
    Valid key limit s := by
  refine hs.invariant (fun h0 => ?_) fun _ h hstep => h.step hlimit hstep
  obtain ⟨rows, hrows, rfl⟩ := h0
  exact (ready_init hrows).turn hlimit

end

/-! ### What a scan shows -/

theorem Valid.nodup (h : Valid key limit s) : s.shown.Nodup := by
  refine List.nodup_iff_pairwise_ne.mpr (h.sorted.imp fun hlt => ?_)
  rintro rfl
  exact lt_irrefl _ hlt

/-- No row is shown twice; nor are two rows that agree in what tells the rows of the start
apart. -/
theorem Valid.nodup_shown (h : Valid key limit s) {ι : Type} (ident : ρ → ι)
    (hident : (s.start.map ident).Nodup) : (s.shown.map ident).Nodup :=
  h.nodup.map_on fun a ha b hb heq =>
    List.inj_on_of_nodup_map hident (h.shown_start a ha) (h.shown_start b hb) heq

/-- Once there is no cursor left, every row of the start that stays has been shown. -/
theorem Valid.shown_of_finished (h : Valid key limit s) (hnext : s.next = none) {r : ρ}
    (hr : r ∈ s.start) (hrow : r ∈ s.rows) : r ∈ s.shown := by
  rcases h.covered r hr hrow with hseen | ⟨c, hc, -⟩
  · exact hseen
  · rw [hnext] at hc
    cases hc

/-- **A scan ends**: there is at most one page more than there were rows. -/
theorem Valid.length_pages_le (h : Valid key limit s) : s.pages.length ≤ s.start.length + 1 := by
  have hle : s.shown.length ≤ s.start.length :=
    (List.subperm_of_subset h.nodup fun r hr => h.shown_start r hr).length_le
  have := h.count.1
  omega

/-- A finished scan of a table nobody wrote has shown all of it, in order. -/
theorem Valid.perm_of_unchanged (h : Valid key limit s) (hnext : s.next = none)
    (hrows : s.rows = s.start) : s.shown.Perm s.start := by
  have hstart : s.start.Nodup := hrows ▸ h.distinct.of_map key
  exact (List.perm_ext_iff_of_nodup h.nodup hstart).mpr fun r =>
    ⟨h.shown_start r, fun hr => h.shown_of_finished hnext hr (hrows ▸ hr)⟩

end Keyset

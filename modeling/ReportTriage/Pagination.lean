import ReportTriage.Listing

/-!
# Following a listing

A client asks for the first page of a queue and follows `next_cursor` until it is null; any
upserts go on meanwhile, at any of their statements. Seen through the keys its cursors stand
for, this is a scan of the library over the items that match.

## Main definitions

* `QueueScan.machine` — the client and the tables.
* `QueueScan.Refines`, `QueueScan.refines_of_along` — its refinement of the library's scan.
* `QueueScan.pagination` — what the pages show.
-/

namespace ReportTriage

/-- A client that follows a listing. -/
structure QueueScan where
  /-- The tables when the first page was fetched. -/
  start : Upserts
  tables : Upserts
  pages : List (List (ReviewQueueItem × Option ReportClassification))
  next : Option String

namespace QueueScan

inductive Action
  | fetch
  /-- A statement of an upsert. -/
  | write (a : Upserts.Action)

/-- The rows shown so far, in order. -/
def shown (s : QueueScan) : List (ReviewQueueItem × Option ReportClassification) := s.pages.flatten

section
variable [UnicodeData] [IsoReader] [Collation]

/-- Fetch a page. Without one, on a 400, the client is stuck. -/
def fetch (query : ListQuery) (s : QueueScan) (cursor : Option String) : Option QueueScan :=
  match listQueueItems s.tables query cursor with
  | .ok (rows, next) => some { s with pages := s.pages ++ [rows], next := next }
  | .error _ => none

def step (query : ListQuery) (s : QueueScan) : Action → Option QueueScan
  | .fetch =>
    match s.next with
    | some cursor => s.fetch query (some cursor)
    | none => none
  | .write a => (s.tables.step a).map fun u => { s with tables := u }

/-- Scans of tables with any content, amid any upserts, from their first page on. -/
def machine (query : ListQuery) : Machine QueueScan Action where
  init s := ∃ u, Upserts.machine.Reachable u ∧ fetch query ⟨u, u, [], none⟩ none = some s
  step := step query

end

/-- A commit stamps the item it leaves later than every item of the start. What the stamp of
the row was before makes no difference. -/
def Stamped (s : QueueScan) : Action → Prop
  | .fetch => True
  | .write a => ∀ u ∈ s.tables.step a, ∀ item ∈ u.queueItems.rows, item ∈ s.tables.queueItems.rows ∨
      ∀ other ∈ s.start.queueItems.rows, other.enqueuedAt < item.enqueuedAt

instance (s : QueueScan) : DecidablePred s.Stamped := fun a => by
  unfold Stamped
  split <;> infer_instance

/-- The client alone moves. -/
def Alone (_ : QueueScan) (a : Action) : Prop := a = .fetch

/-- The tables have the rows they had at the start. -/
def Kept (s : QueueScan) (u : Upserts) : Prop :=
  u.queueItems.rows = s.start.queueItems.rows ∧
    u.classifications.rows = s.start.classifications.rows

/-- No commit: what upserts do meanwhile leaves the rows as they are. -/
def Quiet (s : QueueScan) : Action → Prop
  | .fetch => True
  | .write a => ∀ u ∈ s.tables.step a, u.queueItems.rows = s.tables.queueItems.rows ∧
      u.classifications.rows = s.tables.classifications.rows

/-! ## The scan of the matching items -/

/-- The scan `c` of the library is this one. -/
structure Tracks (query : ListQuery) (s : QueueScan) (c : Keyset.Scan ReviewQueueItem SortKey) :
    Prop where
  start : c.start = query.items s.start
  rows : c.rows = query.items s.tables
  pages : c.pages = s.pages.map (List.map Prod.fst)
  next : s.next = c.next.map cursorText

variable {query : ListQuery} {s s' : QueueScan} {c : Keyset.Scan ReviewQueueItem SortKey}

theorem Tracks.shown (h : Tracks query s c) : c.shown = s.shown.map Prod.fst := by
  rw [Keyset.Scan.shown, h.pages, QueueScan.shown, List.map_flatten]

theorem Tracks.finished (h : Tracks query s c) (hnext : s.next = none) : c.next = none := by
  rwa [h.next, Option.map_eq_none_iff] at hnext

theorem Alone.quiet {a : Action} (h : Alone s a) : s.Quiet a := by
  cases h
  trivial

theorem Quiet.stamped {a : Action} (h : s.Quiet a) : s.Stamped a := by
  cases a with
  | fetch => trivial
  | write a =>
    intro u hu item hitem
    rw [(h u hu).1] at hitem
    exact .inl hitem

theorem Kept.classificationOf {u : Upserts} (h : s.Kept u) (r : String) :
    u.classificationOf r = s.start.classificationOf r := by
  simp only [Upserts.classificationOf, Upsert.Table.find, h.2]

theorem Kept.items {u : Upserts} (h : s.Kept u) (query : ListQuery) :
    query.items u = query.items s.start := by
  rw [ListQuery.items, h.1, ListQuery.items]

section
variable [Collation]

/-- The tables meet their constraints, and some scan of the library is this one. -/
structure Refines (query : ListQuery) (s : QueueScan) : Prop where
  start : s.start.Sound
  sound : s.tables.Sound
  scan : ∃ c, (Keyset.machine sortKey query.limit).Reachable c ∧ Tracks query s c

/-- What holds of the library's scan holds of this one. -/
theorem Refines.valid (h : Refines query s) : ∃ c, Keyset.Valid sortKey query.limit c ∧
    Tracks query s c := by
  obtain ⟨c, hc, htracks⟩ := h.scan
  exact ⟨c, Keyset.valid_of_reachable query.limit_range.1 hc, htracks⟩

theorem Refines.length_pages_le (h : Refines query s) :
    s.pages.length ≤ (query.items s.start).length + 1 := by
  obtain ⟨c, hvalid, htracks⟩ := h.valid
  have hle := hvalid.length_pages_le
  rwa [htracks.start, htracks.pages, List.length_map] at hle

theorem sortKey_lt {a b : ReviewQueueItem} (h : a.enqueuedAt < b.enqueuedAt) :
    sortKey a < sortKey b :=
  Prod.Lex.toLex_lt_toLex.mpr (.inl (Int.ofNat_lt.mpr h))

/-- What upserts do meanwhile, the scan of the library admits. -/
theorem Tracks.admits (h : Tracks query s c) {a : Upserts.Action} {u : Upserts} (hu : u.Sound)
    (hok : s.Stamped (.write a)) (hs : s.tables.step a = some u) :
    c.Admits sortKey (query.items u) := by
  refine ⟨nodup_sortKey hu query, ?_⟩
  intro item hitem
  obtain ⟨hrow, hmatches⟩ := List.mem_filter.mp hitem
  rcases hok u hs item hrow with hold | hlate
  · left
    rw [h.rows]
    exact List.mem_filter.mpr ⟨hold, hmatches⟩
  · refine .inr fun other hother => sortKey_lt (hlate other ?_)
    rw [h.start] at hother
    exact List.mem_of_mem_filter hother

variable [UnicodeData] [IsoReader]

/-- A fetch adds a page. -/
theorem fetch_frame {cursor : Option String} (h : s.fetch query cursor = some s') :
    s'.start = s.start ∧ s'.tables = s.tables ∧ s'.pages.length = s.pages.length + 1 := by
  simp only [fetch] at h
  split at h
  · rw [← Option.some.inj h]
    simp
  · cases h

/-- What a fetch does, at a cursor that stands for a key. -/
theorem fetch_eq (hs : s.tables.Sound) {cursor : Option String} {position : Option SortKey}
    (hcursor : cursorKey cursor = .ok position) :
    s.fetch query cursor = some
      { s with
        pages := s.pages ++ [(Keyset.page sortKey query.limit position
          (query.items s.tables)).rows.map fun item =>
            (item, s.tables.classificationOf item.reportId)]
        next := (Keyset.page sortKey query.limit position
          (query.items s.tables)).next.map cursorText } := by
  rw [fetch, listQueueItems_ok hs query hcursor]

theorem Tracks.fetch (h : Tracks query s c) (hs : s.tables.Sound) {cursor : Option String}
    (hcursor : cursorKey cursor = .ok c.next) (hfetch : s.fetch query cursor = some s') :
    Tracks query s' (c.turn sortKey query.limit) := by
  rw [fetch_eq hs hcursor] at hfetch
  obtain rfl := Option.some.inj hfetch
  refine ⟨h.start, h.rows, ?_, ?_⟩
  · simp [Keyset.Scan.turn, h.pages, h.rows, Function.comp_def]
  · simp [Keyset.Scan.turn, h.rows]

/-- A cursor of the scan is accepted, and stands for its key. -/
theorem Tracks.cursorKey (h : Tracks query s c) (hc : Keyset.Valid sortKey query.limit c)
    {cursor : String} (hnext : s.next = some cursor) :
    cursorKey (some cursor) = .ok c.next ∧ c.next.isSome := by
  rw [h.next, Option.map_eq_some_iff] at hnext
  obtain ⟨k, hk, rfl⟩ := hnext
  obtain ⟨⟨item, -, rfl⟩, -⟩ := hc.position k hk
  rw [cursorKey_cursorText, hk]
  exact ⟨rfl, rfl⟩

/-! ### The refinement -/

theorem refines_init (h : (machine query).init s) : Refines query s := by
  obtain ⟨u, hu, hfetch⟩ := h
  obtain ⟨d, hd, hp⟩ := hu
  have hsound : u.Sound := (Upserts.sound_of_init hd).path hp
  have htracks : Tracks query ⟨u, u, [], none⟩ ⟨query.items u, query.items u, [], none⟩ :=
    ⟨rfl, rfl, rfl, rfl⟩
  obtain ⟨hstart, htables, -⟩ := fetch_frame hfetch
  exact ⟨hstart ▸ hsound, htables ▸ hsound, _,
    .init ⟨query.items u, nodup_sortKey hsound query, rfl⟩, htracks.fetch hsound rfl hfetch⟩

theorem Refines.step (h : Refines query s) {a : Action} (hok : s.Stamped a)
    (hs : s.step query a = some s') : Refines query s' := by
  obtain ⟨hstart, hsound, c, hc, htracks⟩ := h
  have hvalid := Keyset.valid_of_reachable query.limit_range.1 hc
  cases a with
  | fetch =>
    simp only [QueueScan.step] at hs
    split at hs
    · rename_i cursor hnext
      obtain ⟨hkey, hsome⟩ := htracks.cursorKey hvalid hnext
      obtain ⟨hstart', htables', -⟩ := fetch_frame hs
      exact ⟨hstart' ▸ hstart, htables' ▸ hsound, _, hc.step (a := .fetch) (if_pos hsome),
        htracks.fetch hsound hkey hs⟩
    · cases hs
  | write a =>
    obtain ⟨u, hu, rfl⟩ := Option.map_eq_some_iff.mp hs
    have hsound' := hsound.step hu
    have hadmits := htracks.admits hsound' hok hu
    exact ⟨hstart, hsound', _, hc.step (a := .write (query.items u)) (if_pos hadmits),
      htracks.start, rfl, htracks.pages, htracks.next⟩

theorem refines_of_along (hs : (machine query).Along Stamped s) : Refines query s :=
  hs.invariant refines_init fun _ h hok hstep => h.step hok hstep

/-! ## What the pages show -/

/-- An unfinished scan gets its next page. -/
theorem Refines.fetches (h : Refines query s) (hnext : s.next.isSome) :
    ∃ s', s.step query .fetch = some s' ∧ s'.start = s.start ∧
      s'.pages.length = s.pages.length + 1 := by
  obtain ⟨c, hvalid, htracks⟩ := h.valid
  obtain ⟨cursor, hcursor⟩ := Option.isSome_iff_exists.mp hnext
  obtain ⟨s', hs'⟩ : ∃ s', s.fetch query (some cursor) = some s' :=
    ⟨_, fetch_eq h.sound (htracks.cursorKey hvalid hcursor).1⟩
  refine ⟨s', ?_, (fetch_frame hs').1, (fetch_frame hs').2.2⟩
  simp only [QueueScan.step, hcursor, hs']

theorem refines_of_quiet (hs : (machine query).Along Quiet s) : Refines query s :=
  refines_of_along (hs.mono fun _ _ => Quiet.stamped)

/-- The rows are those of the start, and each item is shown with its classification in them. -/
def Still (s : QueueScan) : Prop :=
  s.Kept s.tables ∧ ∀ row ∈ s.shown, row.2 = s.start.classificationOf row.1.reportId

theorem Still.fetch (h : s.Still) (hs : s.tables.Sound) {cursor : Option String}
    {position : Option SortKey} (hkey : cursorKey cursor = .ok position)
    (hfetch : s.fetch query cursor = some s') : s'.Still := by
  rw [fetch_eq hs hkey] at hfetch
  obtain rfl := Option.some.inj hfetch
  refine ⟨h.1, ?_⟩
  intro row hrow
  simp only [QueueScan.shown, List.flatten_append, List.flatten_singleton, List.mem_append,
    List.mem_map] at hrow
  rcases hrow with hold | ⟨item, -, rfl⟩
  · exact h.2 row hold
  · exact h.1.classificationOf _

theorem still_of_quiet (hs : (machine query).Along Quiet s) : s.Still := by
  refine hs.invariant (fun h0 => ?_) fun {t a t'} ht h hok hstep => ?_
  · obtain ⟨u, ⟨d, hd, hp⟩, hinit⟩ := h0
    have hempty : Still ⟨u, u, [], none⟩ := ⟨⟨rfl, rfl⟩, by simp [QueueScan.shown]⟩
    exact hempty.fetch ((Upserts.sound_of_init hd).path hp) rfl hinit
  · cases a with
    | fetch =>
      obtain ⟨c, hvalid, htracks⟩ := (refines_of_quiet ht).valid
      simp only [machine, QueueScan.step] at hstep
      split at hstep
      · rename_i cursor hnext
        exact h.fetch (refines_of_quiet ht).sound (htracks.cursorKey hvalid hnext).1 hstep
      · cases hstep
    | write a =>
      obtain ⟨u, hu, rfl⟩ := Option.map_eq_some_iff.mp hstep
      obtain ⟨hitems, hclassifications⟩ := hok u hu
      exact ⟨⟨hitems.trans h.1.1, hclassifications.trans h.1.2⟩, h.2⟩

/-- A scan that the client alone moves comes to its end. -/
theorem exists_finished (query : ListQuery) {u : Upserts} (hu : Upserts.machine.Reachable u) :
    ∃ s, (machine query).Along Alone s ∧ s.start = u ∧ s.next = none := by
  obtain ⟨d, hd, hp⟩ := hu
  have hsound : u.Sound := (Upserts.sound_of_init hd).path hp
  obtain ⟨s₀, hs₀⟩ : ∃ s₀, fetch query ⟨u, u, [], none⟩ none = some s₀ := ⟨_, fetch_eq hsound rfl⟩
  have h0 : (machine query).init s₀ := ⟨u, ⟨d, hd, hp⟩, hs₀⟩
  have hstart : ∀ {s : QueueScan}, (machine query).Path Alone s₀ s → s.start = u := fun hp =>
    hp.invariant (I := fun s => s.start = u) (fetch_frame hs₀).1 fun _ h hok hstep => by
      cases hok
      simp only [machine, QueueScan.step] at hstep
      split at hstep
      · exact (fetch_frame hstep).1.trans h
      · cases hstep
  have hquiet : ∀ {s : QueueScan}, (machine query).Path Alone s₀ s → Refines query s := fun hp =>
    refines_of_quiet ⟨s₀, h0, hp.mono fun _ _ => Alone.quiet⟩
  have hdone : ∃ s, (machine query).Path Alone s₀ s ∧ s.next.isSome = false := by
    refine Machine.Path.exists_done _ (fun s => s.pages.length) ((query.items u).length + 1)
      (fun {s} hp => ?_) fun {s} hp => ?_
    · rw [← hstart hp]
      exact (hquiet hp).length_pages_le
    · cases hnext : s.next.isSome with
      | false => exact .inl rfl
      | true =>
        obtain ⟨s', hs', -, hpages⟩ := (hquiet hp).fetches hnext
        exact .inr ⟨.fetch, s', rfl, hs', hpages ▸ Nat.lt_succ_self _⟩
  obtain ⟨s, hs, hnext⟩ := hdone
  exact ⟨s, ⟨s₀, h0, hs⟩, hstart hs, by simpa using hnext⟩

/-- **Keyset pagination loses and repeats nothing.** However the upserts go on, as long as each
stamps its item later than the start: every page keeps to the limit, an unfinished scan gets its
next page, and there is at most one page more than there were matching items; no report is shown
twice, and at the end every matching item whose row has stayed as it was is shown once. By itself
the scan of any tables comes to its end, and one that no commit interferes with has then shown
just the matching items, each with its classification, by descending time and id. -/
theorem pagination (query : ListQuery) :
    (∀ s, (machine query).Along Stamped s →
      (∀ p ∈ s.pages, p.length ≤ query.limit) ∧
      s.pages.length ≤ (query.items s.start).length + 1 ∧
      (s.next.isSome → (s.step query .fetch).isSome) ∧
      (s.shown.map fun row => row.1.reportId).Nodup ∧
      (s.next = none → ∀ item ∈ query.items s.start, item ∈ s.tables.queueItems.rows →
        (s.shown.map Prod.fst).count item = 1)) ∧
    (∀ u, Upserts.machine.Reachable u →
      ∃ s, (machine query).Along Alone s ∧ s.start = u ∧ s.next = none) ∧
    (∀ s, (machine query).Along Quiet s → s.next = none →
      s.shown.Perm (s.start.joinClassifications.filter fun row => query.Matches row.1) ∧
      s.shown.Pairwise fun a b => sortKey b.1 < sortKey a.1) := by
  refine ⟨?_, fun u hu => exists_finished query hu, ?_⟩
  · intro s hs
    have hrefines := refines_of_along hs
    obtain ⟨c, hvalid, htracks⟩ := hrefines.valid
    refine ⟨?_, hrefines.length_pages_le, ?_, ?_, ?_⟩
    · intro p hp
      have hle := hvalid.length_le (p.map Prod.fst) (htracks.pages ▸ List.mem_map_of_mem hp)
      rwa [List.length_map] at hle
    · intro hnext
      obtain ⟨s', hs', -⟩ := hrefines.fetches hnext
      rw [hs']
      rfl
    · have hreports : (c.start.map ReviewQueueItem.reportId).Nodup := by
        rw [htracks.start]
        exact List.pairwise_map.mpr ((pairwise_items hrefines.start query).imp And.right)
      have hshown := hvalid.nodup_shown ReviewQueueItem.reportId hreports
      rw [htracks.shown, List.map_map] at hshown
      exact hshown
    · intro hnext item hitem hrow
      have hstays : item ∈ c.rows := by
        rw [htracks.rows]
        exact List.mem_filter.mpr ⟨hrow, (List.mem_filter.mp hitem).2⟩
      have hmem := hvalid.shown_of_finished (htracks.finished hnext) (htracks.start ▸ hitem) hstays
      rw [← htracks.shown]
      exact List.count_eq_one_of_mem hvalid.nodup hmem
  · intro s hs hnext
    obtain ⟨hkept, hpairs⟩ := still_of_quiet hs
    obtain ⟨c, hvalid, htracks⟩ := (refines_of_quiet hs).valid
    have hperm := hvalid.perm_of_unchanged (htracks.finished hnext)
      (by rw [htracks.rows, htracks.start, hkept.items])
    have hsorted := hvalid.sorted
    rw [htracks.shown] at hperm hsorted
    refine ⟨?_, List.pairwise_map.mp hsorted⟩
    have hshown : s.shown = (s.shown.map Prod.fst).map fun item =>
        (item, s.start.classificationOf item.reportId) := by
      rw [List.map_map]
      refine (List.map_id _).symm.trans (List.map_congr_left fun row hrow => ?_)
      exact Prod.ext rfl (hpairs row hrow)
    have hjoin : (s.start.joinClassifications.filter fun row => query.Matches row.1) =
        c.start.map fun item => (item, s.start.classificationOf item.reportId) := by
      rw [htracks.start, Upserts.joinClassifications, ListQuery.items, List.filter_map]
      rfl
    rw [hshown, hjoin]
    exact hperm.map _

end

/-- The statements of an upsert of the item of report `r`, as transaction `txn`, at `now`. -/
def enqueue (r id : String) (txn : ℕ) (now : Time) : List Upserts.Action :=
  [.queueItem (.begin ⟨r, "spam-review"⟩), .queueItem (.advance txn id now),
    .queueItem (.advance txn id now), .queueItem (.advance txn id now)]

/-- Of three items, two of them enqueued at once, the one to be shown last moves to the front
after the first page. The scan ends, and the item that is neither first nor moved is shown. -/
theorem pagination_moved : ∃ (_ : UnicodeData) (_ : IsoReader) (_ : Collation) (query : ListQuery)
    (s : QueueScan), (machine query).Along Stamped s ∧ s.next = none ∧
      (query.items s.start).length = 3 ∧ s.pages.length = 2 ∧
      ∀ item ∈ query.items s.start, item ∈ s.tables.queueItems.rows →
        (s.shown.map Prod.fst).count item = 1 := by
  let _ := asciiUnicode
  let _ := isoReader
  let _ := codePointOrder
  let query : ListQuery := ⟨"spam-review", some "pending", 1, by decide⟩
  let writes := enqueue "a" "qi-1" 0 3 ++ enqueue "b" "qi-2" 1 3 ++ enqueue "c" "qi-3" 2 4
  let moves := (enqueue "a" "" 3 9).map Action.write ++ [.fetch]
  have hrun : ((Upserts.machine.run .empty writes).any fun u =>
      (fetch query ⟨u, u, [], none⟩ none).any fun s₀ =>
        ((machine query).runIf Stamped s₀ moves).any fun s => s.next = none &&
          (query.items s.start).length = 3 && s.pages.length = 2) = true := by
    decide +kernel
  obtain ⟨u, hu, hrun⟩ := (Option.any_eq_true _ _).mp hrun
  obtain ⟨s₀, hs₀, hrun⟩ := (Option.any_eq_true _ _).mp hrun
  have hempty : Upserts.machine.init .empty :=
    ⟨⟨rfl, List.Pairwise.nil⟩, ⟨rfl, List.Pairwise.nil⟩⟩
  have hinit : (machine query).init s₀ := ⟨u, ⟨_, hempty, .of_runIf hu⟩, hs₀⟩
  obtain ⟨s, hs, hp⟩ := Machine.Along.exists_of_runIf hinit hrun
  simp only [Bool.and_eq_true, decide_eq_true_eq] at hp
  obtain ⟨⟨hnext, hitems⟩, hpages⟩ := hp
  exact ⟨_, _, _, query, s, hs, hnext, hitems, hpages,
    ((pagination query).1 s hs).2.2.2.2 hnext⟩

end QueueScan

end ReportTriage

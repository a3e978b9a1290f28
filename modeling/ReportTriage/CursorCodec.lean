import ReportTriage.Readers

/-!
# The codec of cursors

A cursor is a time, a bar and an id, and the id may have bars of its own: only the first one
counts. What is not of this form is refused before the session of the request has executed a
statement, which a session that keeps account of them shows.

## Main definitions

* `Session.listQueueItems`, `Session.listQueueReports` — the listing in such a session.
* `cursor_codec` — the round trip, the injectivity, and what happens to any other text.
* `subsecond_offset_lost` — where there is no round trip.
-/

namespace ReportTriage

/-- The `SELECT` of `list_queue_items`, before it is executed. -/
structure ListStatement where
  query : ListQuery
  position : Option SortKey

/-- The rows it returns, one more than the page shows. -/
def ListStatement.rows [Collation] (stmt : ListStatement) (u : Upserts) :
    List (ReviewQueueItem × Option ReportClassification) :=
  let candidates := u.outerJoin.filter fun row => stmt.query.Matches row.1
  let key := fun row : ReviewQueueItem × Option ReportClassification => sortKey row.1
  (Keyset.descending key (Keyset.below key stmt.position candidates)).take (stmt.query.limit + 1)

/-- A computation in a session, which keeps account of the statements it has executed. -/
abbrev Session : Type → Type := StateM (List ListStatement)

namespace Session
variable [UnicodeData] [IsoReader] [Collation]

omit [UnicodeData] [IsoReader] in
/-- `session.execute`. -/
def execute (u : Upserts) (stmt : ListStatement) :
    Session (List (ReviewQueueItem × Option ReportClassification)) := do
  modify (· ++ [stmt])
  return stmt.rows u

/-- `list_queue_items`, whose `ValueError` leaves the session as it is. -/
def listQueueItems (u : Upserts) (query : ListQuery) (cursor : Option String) :
    ExceptT String Session
      (List (ReviewQueueItem × Option ReportClassification) × Option String) := do
  let position ← ExceptT.mk (pure (cursorKey cursor))
  let rows ← ExceptT.lift (execute u ⟨query, position⟩)
  let hasNext := decide (query.limit < rows.length)
  let rows := rows.take query.limit
  let nextCursor := if hasNext then
      rows.getLast?.map fun row => encodeCursor (.ofTime row.1.enqueuedAt) row.1.id
    else none
  return (rows, nextCursor)

/-- `GET /queues/{queue_name}/reports`. -/
def listQueueReports (u : Upserts) (query : ListQuery) (cursor : Option String) :
    Session (Answer QueueListResponse) := do
  match ← (listQueueItems u query cursor).run with
  | .error detail => return .badRequest detail
  | .ok (rows, nextCursor) =>
    return .ofChecked ((itemResponses rows).andThen fun items =>
      .ok ⟨query.queueName, items, nextCursor⟩)

/-- The statements a listing executes: none if its cursor is refused. -/
def statements (query : ListQuery) (cursor : Option String) : List ListStatement :=
  match cursorKey cursor with
  | .ok position => [⟨query, position⟩]
  | .error _ => []

theorem run_listQueueItems (u : Upserts) (query : ListQuery) (cursor : Option String)
    (log : List ListStatement) : (listQueueItems u query cursor).run.run log =
      (ReportTriage.listQueueItems u query cursor, log ++ statements query cursor) := by
  cases h : cursorKey cursor with
  | error detail =>
    simp only [listQueueItems, ReportTriage.listQueueItems, statements, h, List.append_nil]
    rfl
  | ok position =>
    simp only [listQueueItems, ReportTriage.listQueueItems, statements, h]
    rfl

/-- The listing answers as it does without the account, and executes these statements. -/
theorem run_listQueueReports (u : Upserts) (query : ListQuery) (cursor : Option String)
    (log : List ListStatement) : (listQueueReports u query cursor).run log =
      (ReportTriage.listQueueReports u query cursor, log ++ statements query cursor) := by
  simp only [listQueueReports, ReportTriage.listQueueReports, StateT.run_bind, run_listQueueItems]
  cases ReportTriage.listQueueItems u query cursor <;> rfl

end Session

/-! ## The codec -/

/-- `timestamp|id`. The timestamp ends at the first bar. -/
def IsCursor [IsoReader] (cursor : String) : Prop :=
  ∃ timestamp itemId : String, '|' ∉ timestamp.toList ∧ cursor = timestamp ++ "|" ++ itemId ∧
    (IsoReader.fromisoformat timestamp).isSome

theorem encodeCursor_injective {t t' : DateTime} {itemId itemId' : String}
    (h : encodeCursor t itemId = encodeCursor t' itemId') : t = t' ∧ itemId = itemId' := by
  have hsplit := congrArg (splitOnce '|') h
  rw [splitOnce_encodeCursor, splitOnce_encodeCursor] at hsplit
  simp only [Option.some.injEq, Prod.mk.injEq] at hsplit
  exact ⟨DateTime.isoformat_injective hsplit.1, hsplit.2⟩

section
variable [UnicodeData] [IsoReader]

theorem decodeCursor_of_not_isCursor {cursor : String} (h : ¬ IsCursor cursor) :
    decodeCursor cursor = .error ("invalid cursor: " ++ reprStr cursor) := by
  simp only [decodeCursor]
  split
  · rfl
  · rename_i timestamp itemId hsplit
    obtain ⟨hbar, hcursor⟩ := eq_of_splitOnce hsplit
    split
    · rfl
    · rename_i enqueuedAt hread
      exact absurd ⟨timestamp, itemId, hbar, hcursor, by rw [hread]; rfl⟩ h

theorem decodeCursor_of_isCursor {cursor : String} (h : IsCursor cursor) :
    ∃ enqueuedAt itemId, decodeCursor cursor = .ok (enqueuedAt, itemId) := by
  obtain ⟨timestamp, itemId, hbar, rfl, hread⟩ := h
  obtain ⟨enqueuedAt, hread⟩ := Option.isSome_iff_exists.mp hread
  have hsplit : splitOnce '|' (timestamp ++ "|" ++ itemId) = some (timestamp, itemId) :=
    splitOnce_append hbar itemId
  refine ⟨enqueuedAt, itemId, ?_⟩
  rw [decodeCursor, hsplit]
  dsimp only
  rw [hread]

/-- **The codec of cursors.** A cursor written for an aware time, in UTC or at least a second off
it, and any id is read back as that instant and that id; two cursors of one text were written for
one time and one id; and a text is read exactly if it is `timestamp|id`, any other being a
`ValueError`, for which the listing answers with a 400 and executes no statement. -/
theorem cursor_codec [Collation] :
    (∀ (t : DateTime) (itemId : String), t.utcoffset.isSome → t.KeepsOffset →
      ∃ t', decodeCursor (encodeCursor t itemId) = .ok (t', itemId) ∧ t'.instant = t.instant) ∧
    (∀ (t t' : DateTime) (itemId itemId' : String),
      encodeCursor t itemId = encodeCursor t' itemId' → t = t' ∧ itemId = itemId') ∧
    (∀ cursor, IsCursor cursor →
      ∃ enqueuedAt itemId, decodeCursor cursor = .ok (enqueuedAt, itemId)) ∧
    ∀ cursor, ¬ IsCursor cursor →
      decodeCursor cursor = .error ("invalid cursor: " ++ reprStr cursor) ∧
      ∀ (u : Upserts) (query : ListQuery) (log : List ListStatement),
        (Session.listQueueReports u query (some cursor)).run log =
          (.badRequest ("invalid cursor: " ++ reprStr cursor), log) := by
  refine ⟨?_, ?_, fun _ => decodeCursor_of_isCursor, ?_⟩
  · intro t itemId _ hkeeps
    exact ⟨t, decode_encode hkeeps itemId, rfl⟩
  · intro t t' itemId itemId' h
    exact encodeCursor_injective h
  · intro cursor h
    have herror := decodeCursor_of_not_isCursor h
    refine ⟨herror, ?_⟩
    intro u query log
    have hkey : cursorKey (some cursor) = .error ("invalid cursor: " ++ reprStr cursor) := by
      rw [cursorKey, herror]
      rfl
    rw [Session.run_listQueueReports, listQueueReports, listQueueItems, Session.statements, hkey,
      List.append_nil]
    rfl

end

/-- The start of 2024 on a clock with this offset. -/
def newYear (utcoffset : ℤ) (h : utcoffset.natAbs < 86400000000) : DateTime where
  date := ⟨2024, 1, 1, by decide, by decide, by decide⟩
  hour := 0
  minute := 0
  second := 0
  microsecond := 0
  utcoffset := some utcoffset
  year_le := by decide
  hour_lt := by decide
  minute_lt := by decide
  second_lt := by decide
  microsecond_lt := by decide
  utcoffset_lt := by
    rintro o ⟨⟩
    exact h

example : (newYear (-1) (by decide)).isoformat = "2024-01-01T00:00:00-00:00:00.000001" := by
  decide +kernel

/-- New year in Seoul, and a text without a bar. -/
theorem cursor_codec_seoul : ∃ (_ : UnicodeData) (_ : IsoReader) (_ : Collation),
    (∃ t', decodeCursor (encodeCursor (newYear 32400000000 (by decide)) "qi|1") =
        .ok (t', "qi|1") ∧ t'.instant = 1704034800000000) ∧
      ∀ log, (Session.listQueueReports .empty ⟨"spam-review", none, 20, by decide⟩
        (some "2024-01-01")).run log = (.badRequest "invalid cursor: '2024-01-01'", log) := by
  let _ := asciiUnicode
  let _ := isoReader
  let _ := codePointOrder
  have hcodec := cursor_codec
  refine ⟨asciiUnicode, isoReader, codePointOrder, ?_, fun log => ?_⟩
  · obtain ⟨t', hread, hinstant⟩ := hcodec.1 (newYear 32400000000 (by decide)) "qi|1" rfl (by
      rintro o ⟨⟩
      exact .inr (by decide))
    exact ⟨t', hread, hinstant.trans (by decide)⟩
  · have hbar : ¬ IsCursor "2024-01-01" := by
      rintro ⟨timestamp, itemId, -, htext, -⟩
      have hmem : '|' ∈ "2024-01-01".toList := by
        rw [htext]
        simp
      revert hmem
      decide
    have hdetail : reprStr "2024-01-01" = "'2024-01-01'" := by decide +kernel
    rw [(hcodec.2.2.2 _ hbar).2, hdetail]
    rfl

/-- A reader that takes an offset of a microsecond for none reads another instant. -/
theorem subsecond_offset_lost :
    ¬ ∀ (t : DateTime) (itemId : String), t.utcoffset.isSome →
      ∃ t', @decodeCursor asciiUnicode isoReader (encodeCursor t itemId) = .ok (t', itemId) ∧
        @DateTime.instant isoReader t' = @DateTime.instant isoReader t := by
  let _ := asciiUnicode
  let _ := isoReader
  intro h
  obtain ⟨t', hread, hinstant⟩ := h (newYear (-1) (by decide)) "qi-1" rfl
  have hlost : IsoReader.fromisoformat (newYear (-1) (by decide)).isoformat =
      some (newYear 0 (by decide)) := by
    change (DateTime.readIso _).map DateTime.wholeOffset = _
    rw [DateTime.readIso_isoformat]
    rfl
  rw [decodeCursor, splitOnce_encodeCursor] at hread
  dsimp only at hread
  rw [hlost] at hread
  cases hread
  revert hinstant
  decide

end ReportTriage

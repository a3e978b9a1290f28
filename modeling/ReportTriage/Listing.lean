import Mathlib.Data.Int.Order.Basic
import Mathlib.Data.Prod.Lex
import Mathlib.Data.String.Basic
import ReportTriage.Cursor
import ReportTriage.Lib.Keyset
import ReportTriage.Upserts

/-!
# The listing of a queue

`GET /queues/{queue_name}/reports` joins the items of a queue with their classifications and
shows a page of them at a time, latest first. The database's order of texts is a parameter.

## Main definitions

* `Upserts.joinClassifications`, `Upserts.outerJoin` — the join, by report and by SQL's rule.
* `listQueueItems`, `listQueueItems_ok` — a page, and that it is one of the library, with texts
  for cursors.
-/

namespace ReportTriage

/-! ## Reading the tables -/

/-- An item of `GET /queues/{queue_name}/reports`. -/
structure QueueItemPayload where
  reportId : String
  queueStatus : String
  category : String
  priority : String
  requiresReview : Bool
  enqueuedAt : Time
  deriving DecidableEq, Repr

/-- What `list_queue_reports` makes of a pair of the join. -/
def queueItemPayload (queueItem : ReviewQueueItem) (classification : Option ReportClassification) :
    QueueItemPayload :=
  { reportId := queueItem.reportId
    queueStatus := queueItem.queueStatus
    category := (classification.map ReportClassification.category).getD "unknown"
    priority := (classification.map ReportClassification.priority).getD "low"
    requiresReview := (classification.map ReportClassification.requiresReview).getD false
    enqueuedAt := queueItem.enqueuedAt }

namespace Upserts

/-- The classification a report is loaded with. -/
def classificationOf (u : Upserts) (r : String) : Option ReportClassification :=
  u.classifications.find upsertClassification r

/-- The outer join of `list_queue_items`, of which a page shows a part. -/
def joinClassifications (u : Upserts) : List (ReviewQueueItem × Option ReportClassification) :=
  u.queueItems.rows.map fun item => (item, u.classificationOf item.reportId)

theorem classificationOf_some {u : Upserts} {r : String} {c : ReportClassification}
    (h : u.classificationOf r = some c) : c ∈ u.classifications.rows ∧ c.reportId = r :=
  Upsert.Table.find_some _ h

theorem Classified.classificationOf {u : Upserts} {r : String} (h : u.Classified r) :
    (u.classificationOf r).isSome :=
  (Upsert.Table.isSome_find _).mpr h

/-- `queue_items LEFT OUTER JOIN classifications`. -/
def outerJoin (u : Upserts) : List (ReviewQueueItem × Option ReportClassification) :=
  u.queueItems.rows.flatMap fun item =>
    match u.classifications.rows.filter fun c => c.reportId = item.reportId with
    | [] => [(item, none)]
    | found => found.map fun c => (item, some c)

/-- Since a report has one classification at most, the join shows each item once. -/
theorem outerJoin_eq {u : Upserts} (h : u.Sound) : u.outerJoin = u.joinClassifications := by
  rw [outerJoin, joinClassifications, List.map_eq_flatMap]
  refine List.flatMap_congr fun item _ => ?_
  have hle := h.classifications.length_filter_key_le item.reportId
  have hfind : u.classificationOf item.reportId =
      (u.classifications.rows.filter fun c => c.reportId = item.reportId).head? := by
    rw [List.head?_filter]
    rfl
  rw [hfind]
  change (u.classifications.rows.filter fun c => c.reportId = item.reportId).length ≤ 1 at hle
  generalize (u.classifications.rows.filter fun c => c.reportId = item.reportId) = found at hle ⊢
  rcases found with _ | ⟨c, rest⟩
  · rfl
  · rw [List.length_cons] at hle
    obtain rfl : rest = [] := List.eq_nil_of_length_eq_zero (by omega)
    rfl

end Upserts

/-! ## Pages -/

/-- The order of texts in the database, by which it sorts and compares rows. -/
class Collation where
  order : LinearOrder String

/-- The order by code points. -/
@[reducible] def codePointOrder : Collation := ⟨inferInstance⟩

/-- A text, as the database orders it. -/
def Collated : Type := String

instance [Collation] : LinearOrder Collated := Collation.order

/-- Rows `(enqueued_at, id)`, compared column by column. -/
abbrev SortKey : Type := ℤ ×ₗ Collated

def sortKey (item : ReviewQueueItem) : SortKey := toLex ((item.enqueuedAt.val : ℤ), item.id)

/-- The parameters of a listing that its pages have in common. -/
structure ListQuery where
  queueName : String
  status : Option String
  limit : ℕ
  limit_range : 1 ≤ limit ∧ limit ≤ 100

/-- The `WHERE` clauses on an item that do not concern the cursor. -/
def ListQuery.Matches (query : ListQuery) (item : ReviewQueueItem) : Prop :=
  item.queueName = query.queueName ∧ ∀ status ∈ query.status, item.queueStatus = status

instance (query : ListQuery) (item : ReviewQueueItem) : Decidable (query.Matches item) :=
  inferInstanceAs (Decidable (_ ∧ _))

/-- The items a query lists. -/
def ListQuery.items (query : ListQuery) (u : Upserts) : List ReviewQueueItem :=
  u.queueItems.rows.filter query.Matches

theorem pairwise_items {u : Upserts} (hu : u.Sound) (query : ListQuery) :
    (query.items u).Pairwise fun a b => a.id ≠ b.id ∧ a.reportId ≠ b.reportId :=
  (List.pairwise_map.mp hu.queueItems.distinct).sublist List.filter_sublist

/-- No two items are at one place. -/
theorem nodup_sortKey {u : Upserts} (hu : u.Sound) (query : ListQuery) :
    ((query.items u).map sortKey).Nodup := by
  refine List.pairwise_map.mpr ((pairwise_items hu query).imp fun hne heq => hne.1 ?_)
  exact congrArg (fun k => (ofLex k).2) heq

/-- The text of the cursor of a row. -/
def cursorText (key : SortKey) : String :=
  encodeCursor (.ofTime (Fin.ofNat _ (ofLex key).1.toNat)) (ofLex key).2

theorem cursorText_sortKey (item : ReviewQueueItem) :
    cursorText (sortKey item) = encodeCursor (.ofTime item.enqueuedAt) item.id := by
  have htime : Fin.ofNat 253402300800000000 (ofLex (sortKey item)).1.toNat = item.enqueuedAt :=
    Fin.ofNat_val_eq_self item.enqueuedAt
  have hid : (ofLex (sortKey item)).2 = item.id := rfl
  rw [cursorText, htime, hid]

section
variable [UnicodeData] [IsoReader]

/-- The row a cursor stands for. -/
def cursorKey : Option String → Except String (Option SortKey)
  | none => .ok none
  | some cursor =>
    (decodeCursor cursor).map fun (enqueuedAt, itemId) => some (toLex (enqueuedAt.instant, itemId))

/-- `list_queue_items`; the error is the text of its `ValueError`. -/
def listQueueItems [Collation] (u : Upserts) (query : ListQuery) (cursor : Option String) :
    Except String (List (ReviewQueueItem × Option ReportClassification) × Option String) := do
  let position ← cursorKey cursor
  let candidates := u.outerJoin.filter fun row => query.Matches row.1
  let key := fun row : ReviewQueueItem × Option ReportClassification => sortKey row.1
  let rows := (Keyset.descending key (Keyset.below key position candidates)).take (query.limit + 1)
  let hasNext := decide (query.limit < rows.length)
  let rows := rows.take query.limit
  let nextCursor := if hasNext then
      rows.getLast?.map fun row => encodeCursor (.ofTime row.1.enqueuedAt) row.1.id
    else none
  return (rows, nextCursor)

theorem cursorKey_cursorText (item : ReviewQueueItem) :
    cursorKey (some (cursorText (sortKey item))) = .ok (some (sortKey item)) := by
  rw [cursorText_sortKey, cursorKey, decode_encode (DateTime.keepsOffset_ofTime _), Except.map]
  dsimp only
  rw [DateTime.instant_ofTime, sortKey]

/-- **A page of the listing** is a page of the matching items, each with its classification,
and the text of its cursor. -/
theorem listQueueItems_ok [Collation] {u : Upserts} (hu : u.Sound) (query : ListQuery)
    {cursor : Option String} {position : Option SortKey} (h : cursorKey cursor = .ok position) :
    listQueueItems u query cursor = .ok
      ((Keyset.page sortKey query.limit position (query.items u)).rows.map fun item =>
          (item, u.classificationOf item.reportId),
        (Keyset.page sortKey query.limit position (query.items u)).next.map cursorText) := by
  have hjoin : (u.outerJoin.filter fun row => query.Matches row.1) =
      (query.items u).map fun item => (item, u.classificationOf item.reportId) := by
    rw [Upserts.outerJoin_eq hu, Upserts.joinClassifications, ListQuery.items, List.filter_map]
    rfl
  have hpage := Keyset.page_map (fun item => (item, u.classificationOf item.reportId))
    (fun row : ReviewQueueItem × Option ReportClassification => sortKey row.1)
    (fun item => rfl) query.limit position (query.items u)
  simp only [listQueueItems, h, hjoin, bind, Except.bind, pure, Except.pure, decide_eq_true_eq]
  refine congrArg Except.ok (Prod.ext (congrArg Keyset.Page.rows hpage) ?_)
  refine Eq.trans ?_ (congrArg (fun p => p.next.map cursorText) hpage)
  simp only [Keyset.page]
  split
  · rw [Option.map_map]
    exact congrArg (Option.map · _) (funext fun row => (cursorText_sortKey row.1).symm)
  · rfl

/-- A page shows items of the table. -/
theorem mem_of_listQueueItems [Collation] {u : Upserts} (hu : u.Sound) {query : ListQuery}
    {cursor next : Option String} {rows : List (ReviewQueueItem × Option ReportClassification)}
    (h : listQueueItems u query cursor = .ok (rows, next)) :
    ∀ row ∈ rows, row.1 ∈ u.queueItems.rows := by
  cases hcursor : cursorKey cursor with
  | error detail =>
    rw [listQueueItems, hcursor] at h
    cases h
  | ok position =>
    rw [listQueueItems_ok hu query hcursor] at h
    cases h
    have hpage := Keyset.isPage_page query.limit_range.1 (nodup_sortKey hu query) position
    intro row hrow
    obtain ⟨item, hitem, rfl⟩ := List.mem_map.mp hrow
    exact List.mem_of_mem_filter (Keyset.mem_below.mp (hpage.subset item hitem)).1

end

end ReportTriage

import ReportTriage.Pagination
import ReportTriage.Recovery

/-!
# What an operator sees

An operator opens one of the four queues and follows its listing to the end. What the pages show
is joined from two tables by a third party's key, while the report and its status are in a table
of their own; still it is what the rules make of the reports, each of them in one queue.

## Main definitions

* `allowedQueues`, `routeToQueue_mem` — the queues, and that there is no other.
* `QueueScan.shown_perm` — a scan that nobody disturbs shows what matches.
* `System.operator_view` — the pages, in terms of the reports.
-/

namespace ReportTriage

/-- `ALLOWED_QUEUES`. -/
def allowedQueues : List String := categoryToQueue.map Prod.snd

/-- Every category has a queue, those the table does not know included. -/
theorem routeToQueue_mem (category : String) : routeToQueue category ∈ allowedQueues := by
  unfold routeToQueue
  cases h : categoryToQueue.lookup category with
  | none => decide
  | some queue =>
    obtain ⟨l₁, l₂, heq, -⟩ := List.lookup_eq_some_iff.mp h
    exact List.mem_map.mpr ⟨(category, queue), by rw [heq]; simp, rfl⟩

namespace QueueScan
variable [UnicodeData] [IsoReader] [Collation] {query : ListQuery} {c : QueueScan}

/-- A scan of tables to which nobody commits shows the items that match, each once, and each with
its classification. -/
theorem shown_perm (hc : (machine query).Along Quiet c) (hnext : c.next = none) :
    (c.shown.map Prod.fst).Perm (query.items c.start) ∧
      ∀ row ∈ c.shown, row.2 = c.start.classificationOf row.1.reportId := by
  obtain ⟨hkept, hpairs⟩ := still_of_quiet hc
  obtain ⟨k, hvalid, htracks⟩ := (refines_of_quiet hc).valid
  have hrows : k.rows = k.start := by rw [htracks.rows, htracks.start, hkept.items]
  have hperm := hvalid.perm_of_unchanged (htracks.finished hnext) hrows
  rw [htracks.shown, htracks.start] at hperm
  exact ⟨hperm, hpairs⟩

end QueueScan

namespace System
variable [UnicodeData] {s : System} {r : String}

theorem upserts_reachable (h : machine.Reachable s) : Upserts.machine.Reachable s.upserts := by
  obtain ⟨s₀, rfl, hp⟩ := h
  exact ⟨_, ⟨⟨rfl, List.Pairwise.nil⟩, ⟨rfl, List.Pairwise.nil⟩⟩, upserts_path hp⟩

/-- The item of a report is in the queue of the rules, and is listed with their values. -/
theorem payload_of_item (h : machine.Reachable s) {item : ReviewQueueItem}
    (hitem : item ∈ s.upserts.queueItems.rows) :
    ∃ report, s.getReport item.reportId = some report ∧ report.id = item.reportId ∧
      item.queueName = (triage report.load).routedQueue ∧ item.queueStatus = "pending" ∧
      queueItemPayload item (s.upserts.classificationOf item.reportId) =
        { reportId := report.id
          queueStatus := "pending"
          category := (triage report.load).category
          priority := (triage report.load).priority
          requiresReview := (triage report.load).requiresReview
          enqueuedAt := item.enqueuedAt } := by
  have hcausal := causal_of_reachable h
  obtain ⟨⟨t, ⟨_, ⟨report, hreport, rfl⟩, rfl⟩, hqueue⟩, hclassified, hpending, -⟩ :=
    hcausal.queueItems.rows item hitem
  obtain ⟨c, hc⟩ := Option.isSome_iff_exists.mp hclassified.classificationOf
  obtain ⟨hmem, hid⟩ := Upserts.classificationOf_some hc
  obtain ⟨_, ⟨report', hreport', rfl⟩, hresult⟩ := hcausal.classifications.rows c hmem
  rw [hid, hreport] at hreport'
  cases hreport'
  refine ⟨report, hreport, (getReport_eq_some hreport).2, hqueue.symm, hpending, ?_⟩
  simp only [queueItemPayload, hc, hpending, ← hresult, Option.map_some, Option.getD_some,
    (getReport_eq_some hreport).2]

/-- A classified report has one item, pending in the queue of the rules. -/
theorem items_of_classified (h : machine.Reachable s) {report : Report}
    (hreport : s.getReport r = some report)
    (hst : s.status r = some ReportStatus.classified.value) (query : ListQuery) :
    ((query.items s.upserts).filter fun item => item.reportId = r).length =
      if (triage report.load).routedQueue = query.queueName ∧
        ∀ status ∈ query.status, status = "pending" then 1 else 0 := by
  have hcausal := causal_of_reachable h
  obtain ⟨-, item, hitem, hid⟩ := hcausal.classified r hst
  have hone : (s.upserts.queueItems.rows.filter fun item => item.reportId = r) = [item] :=
    Slots.eq_singleton_of_mem (List.mem_filter.mpr ⟨hitem, decide_eq_true hid⟩)
      (hcausal.sound.queueItems.length_filter_key_le r)
  obtain ⟨report', hreport', -, hqueue, hpending, -⟩ := payload_of_item h hitem
  rw [hid, hreport] at hreport'
  cases hreport'
  have hmatches : query.Matches item ↔ (triage report.load).routedQueue = query.queueName ∧
      ∀ status ∈ query.status, status = "pending" := by
    simp only [ListQuery.Matches, hqueue, hpending, eq_comm (a := "pending")]
  rw [ListQuery.items, List.filter_comm, hone, if_congr hmatches.symm rfl rfl]
  by_cases hm : query.Matches item <;> simp [hm]

variable [IsoReader] [Collation]

/-- **What an operator sees.** In every reachable state of the system, for every queue, status
filter and page size: the listing can be followed to its end, and if no upsert commits meanwhile,
whatever it shows belongs to a stored report that the rules send to this queue, one of the four,
with the category, the priority and the review flag the rules give it; and a report that reads
`classified` is shown once in the queue of the rules, under the filter `pending` or none, and
never in another queue or under another filter. -/
theorem operator_view (h : machine.Reachable s) (query : ListQuery) :
    (∃ c, (QueueScan.machine query).Along QueueScan.Alone c ∧ c.start = s.upserts ∧
      c.next = none) ∧
    ∀ c, (QueueScan.machine query).Along QueueScan.Quiet c → c.start = s.upserts → c.next = none →
      (∀ row ∈ c.shown, ∃ report, s.getReport row.1.reportId = some report ∧
        (triage report.load).routedQueue = query.queueName ∧ query.queueName ∈ allowedQueues ∧
        queueItemPayload row.1 row.2 =
          { reportId := report.id
            queueStatus := "pending"
            category := (triage report.load).category
            priority := (triage report.load).priority
            requiresReview := (triage report.load).requiresReview
            enqueuedAt := row.1.enqueuedAt }) ∧
      ∀ r report, s.getReport r = some report →
        s.status r = some ReportStatus.classified.value →
        (c.shown.countP fun row => row.1.reportId = r) =
          if (triage report.load).routedQueue = query.queueName ∧
            ∀ status ∈ query.status, status = "pending" then 1 else 0 := by
  refine ⟨QueueScan.exists_finished query (upserts_reachable h), fun c hc hstart hnext => ?_⟩
  obtain ⟨hperm, hpairs⟩ := QueueScan.shown_perm hc hnext
  rw [hstart] at hperm hpairs
  refine ⟨fun row hrow => ?_, fun r report hreport hst => ?_⟩
  · have hitem := hperm.subset (List.mem_map_of_mem hrow)
    obtain ⟨hmem, hmatches⟩ := List.mem_filter.mp hitem
    have hqueue := (of_decide_eq_true hmatches).1
    obtain ⟨report, hreport, -, hrouted, -, hpayload⟩ := payload_of_item h hmem
    refine ⟨report, hreport, hrouted.symm.trans hqueue, ?_, (hpairs row hrow).symm ▸ hpayload⟩
    rw [← hqueue, hrouted]
    exact routeToQueue_mem _
  · rw [← items_of_classified h hreport hst query, ← (hperm.filter _).length_eq,
      ← List.countP_eq_length_filter, List.countP_map]
    rfl

omit [UnicodeData] [IsoReader] [Collation] in
/-- After a clean run the report is in the spam queue, where the operator finds it. -/
theorem operator_view_cleanRun : ∃ (_ : UnicodeData) (_ : IsoReader) (_ : Collation) (s : System)
    (query : ListQuery) (c : QueueScan), machine.Reachable s ∧
      (QueueScan.machine query).Along QueueScan.Alone c ∧ c.start = s.upserts ∧ c.next = none ∧
      query.queueName = "spam-review" ∧ (c.shown.countP fun row => row.1.reportId = "r") = 1 := by
  let _ := asciiUnicode
  let _ := isoReader
  let _ := codePointOrder
  let query : ListQuery := ⟨"spam-review", none, 20, by decide⟩
  have hrun : ((machine.run empty (Sample.create 0 "r" ++ Sample.cleanRun 0 0)).any fun s =>
      s.status "r" = some ReportStatus.classified.value && (s.getReport "r").any fun report =>
        (triage report.load).routedQueue = "spam-review") = true := by decide +kernel
  obtain ⟨s, hs, hp⟩ := Machine.Along.exists_of_runIf rfl hrun
  simp only [Bool.and_eq_true, decide_eq_true_eq] at hp
  obtain ⟨hst, hreport⟩ := hp
  obtain ⟨report, hreport, hqueue⟩ := (Option.any_eq_true _ _).mp hreport
  obtain ⟨⟨c, hc, hstart, hnext⟩, hshown⟩ := operator_view hs query
  refine ⟨_, _, _, s, query, c, hs, hc, hstart, hnext, rfl, ?_⟩
  have hquiet := hc.mono fun _ _ => QueueScan.Alone.quiet
  rw [(hshown c hquiet hstart hnext).2 "r" report hreport hst]
  exact if_pos ⟨of_decide_eq_true hqueue, nofun⟩

end System

end ReportTriage

import ReportTriage.Upserts

/-!
# Overwriting a classification

`upsert_classification` loads the row and assigns it column by column, and the UPDATE names
only the columns whose value changed since the load. When another call has committed in
between, the columns left out keep what that call stored, so the row may mix two calls.
-/

namespace ReportTriage

namespace ClassificationArgs

/-- The six columns a call assigns. -/
def columns (a : ClassificationArgs) : String × String × Bool × ℚ × String × String :=
  (a.category, a.priority, a.requiresReview, a.confidence, a.reasoningSummary, a.routedQueue)

/-- Each column is in the UPDATE, or stored already. -/
def WritesWhole (a : ClassificationArgs) (loaded stored : ReportClassification) : Prop :=
  (loaded.category ≠ a.category ∨ stored.category = a.category) ∧
  (loaded.priority ≠ a.priority ∨ stored.priority = a.priority) ∧
  (loaded.requiresReview ≠ a.requiresReview ∨ stored.requiresReview = a.requiresReview) ∧
  (loaded.confidence ≠ a.confidence ∨ stored.confidence = a.confidence) ∧
  (loaded.reasoningSummary ≠ a.reasoningSummary ∨
    stored.reasoningSummary = a.reasoningSummary) ∧
  (loaded.routedQueue ≠ a.routedQueue ∨ stored.routedQueue = a.routedQueue)

instance (a : ClassificationArgs) (loaded stored : ReportClassification) :
    Decidable (a.WritesWhole loaded stored) := inferInstanceAs (Decidable (_ ∧ _))

end ClassificationArgs

/-- The same six of a row. -/
def ReportClassification.columns (c : ReportClassification) :
    String × String × Bool × ℚ × String × String :=
  (c.category, c.priority, c.requiresReview, c.confidence, c.reasoningSummary, c.routedQueue)

/-- The condition is exact: the version an UPDATE leaves is the tuple of its call just when
each column is in the UPDATE or stored already. -/
theorem columns_overwrite_iff {a : ClassificationArgs} {now : Time}
    {loaded stored : ReportClassification} :
    (upsertClassification.overwrite a now loaded stored).columns = a.columns ↔
      a.WritesWhole loaded stored := by
  simp only [upsertClassification, ReportClassification.columns, ClassificationArgs.columns,
    ClassificationArgs.WritesWhole, Prod.mk.injEq, WriteBack.column_eq_assigned_iff]

namespace ClassificationTable

/-- An UPDATE is flushed only where it writes the whole tuple of its call. -/
def Lands (T : ClassificationTable) : Upsert.Action ClassificationArgs String Time → Prop
  | .advance t _ _ => ∀ x ∈ T.txns[t]?, ∀ loaded ∈ x.phase.loaded, ∀ stored ∈ T.rows,
    stored.id = loaded.id → x.args.WritesWhole loaded stored
  | _ => True

instance (T : ClassificationTable) (a : Upsert.Action ClassificationArgs String Time) :
    Decidable (T.Lands a) := by
  unfold Lands
  split <;> infer_instance

/-- **No torn overwrite, where every UPDATE lands.** From any table that meets its constraints,
in every interleaving of the statements of any number of calls with any arguments: the row of a
report holds the six columns of the call that committed last, or those it had at the start when
none has. -/
theorem last_commit_whole {d T : ClassificationTable}
    {as : List (Upsert.Action ClassificationArgs String Time)}
    (hd : (Upsert.machine upsertClassification).init d)
    (hrun : (Upsert.machine upsertClassification).runIf Lands d as = some T) (r : String) :
    (T.find upsertClassification r).map ReportClassification.columns =
      ((d.lastCommitted upsertClassification r as).map ClassificationArgs.columns).or
        ((d.find upsertClassification r).map ReportClassification.columns) := by
  have hheld : d.Held fun a row => row.columns = a.columns := by
    intro x hx
    simp [hd.1] at hx
  refine Upsert.find_of_run (Upsert.sound_of_init hd) hheld hrun (fun _ _ _ => rfl) ?_ r
  intro U t newId now hlands x loaded stored n hx hp hstored hid
  exact columns_overwrite_iff.mpr (hlands x hx loaded (by simp [hp, Upsert.Phase.loaded]) stored
    hstored hid)

/-- A call that inserts the row, and commits. -/
def firstCall : List (Upsert.Action ClassificationArgs String Time) :=
  [.begin ⟨"r", "spam", "medium", false, 3 / 4, "s", "spam-review"⟩,
    .advance 0 "c" 1, .advance 0 "c" 2, .advance 0 "c" 3]

/-- Two more calls, both of which select the row before either flushes. -/
def secondCall : ClassificationArgs := ⟨"r", "fraud", "high", true, 7 / 10, "f", "fraud-review"⟩

def overlap (thirdCall : ClassificationArgs) :
    List (Upsert.Action ClassificationArgs String Time) :=
  firstCall ++ [.begin secondCall, .begin thirdCall, .advance 1 "" 4, .advance 2 "" 5,
    .advance 1 "" 6, .advance 1 "" 7, .advance 2 "" 8, .advance 2 "" 9]

/-- The third call assigns other values than the row it loaded to every column. -/
theorem last_commit_whole_overlap :
    let thirdCall : ClassificationArgs :=
      ⟨"r", "abuse", "critical", true, 9 / 10, "a", "abuse-review"⟩
    ∃ T, (Upsert.machine upsertClassification).runIf Lands ⟨[], []⟩ (overlap thirdCall) = some T ∧
      (T.find upsertClassification "r").map ReportClassification.columns =
        some thirdCall.columns := by
  intro thirdCall
  have hinit : (Upsert.machine upsertClassification).init ⟨[], []⟩ := ⟨rfl, List.Pairwise.nil⟩
  have hsome : ((Upsert.machine upsertClassification).runIf Lands ⟨[], []⟩
      (overlap thirdCall)).isSome := by decide +kernel
  obtain ⟨T, hT⟩ := Option.isSome_iff_exists.mp hsome
  refine ⟨T, hT, (last_commit_whole hinit hT "r").trans ?_⟩
  decide +kernel

/-- The third call assigns category, priority and queue the values it loaded, so they stay as
the second call stored them: the row is that of no call. -/
theorem torn_overwrite :
    let thirdCall : ClassificationArgs := ⟨"r", "spam", "medium", true, 1 / 2, "s'", "spam-review"⟩
    let torn := ("fraud", "high", true, (1 / 2 : ℚ), "s'", "fraud-review")
    (Upsert.machine upsertClassification).init ⟨[], []⟩ ∧
    Upsert.Table.lastCommitted upsertClassification "r" ⟨[], []⟩ (overlap thirdCall) =
      some thirdCall ∧
    ∃ T, (Upsert.machine upsertClassification).run ⟨[], []⟩ (overlap thirdCall) = some T ∧
      (T.find upsertClassification "r").map ReportClassification.columns = some torn ∧
      torn ∉ T.txns.map fun x => x.args.columns := by
  intro thirdCall torn
  have hrun : ((Upsert.machine upsertClassification).run ⟨[], []⟩ (overlap thirdCall)).any
      (fun T => (T.find upsertClassification "r").map ReportClassification.columns = some torn ∧
        torn ∉ T.txns.map fun x => x.args.columns) = true := by decide +kernel
  obtain ⟨T, hT, hp⟩ := (Option.any_eq_true _ _).mp hrun
  exact ⟨⟨rfl, List.Pairwise.nil⟩, by decide +kernel, T, hT, of_decide_eq_true hp⟩

end ClassificationTable

end ReportTriage

import ReportTriage.Coherence

/-!
# When a status write takes effect

Every operation that sets `reports.status` loads the row, assigns the status and commits; the
UPDATE leaves out the status if it is the one loaded. So a write can be lost to a commit made
between the load and the UPDATE, and only if it writes back the status it has loaded.

## Main definitions

* `status_after_write` — exactly when the stored status is the one written.
* `lost_reset` — a reprocess request that leaves its report in `processing`.
-/

namespace ReportTriage.System

open WriteBack (column column_eq_assigned_iff)

section
variable {s s' : System} {a : Action} {loaded : Report} {status : ReportStatus}

/-- The row a status write is about is stored. -/
theorem Coherent.isSome_of_statusWrite (h : Coherent s)
    (hw : s.statusWrite a = some (loaded, status)) : (s.getReport loaded.id).isSome := by
  rcases statusWrite_eq_some hw with ⟨q, e, now, raises, -, hq, -⟩ | ⟨q, e, now, cause, -, hq, -⟩ |
    ⟨i, x, input, r, -, hx, hp, -⟩
  · exact (h.reset q e loaded hq).2
  · exact (h.window q e _ _ hq rfl).2
  · exact (h.loaded i x loaded hx hp).2

variable [UnicodeData]

/-- What a status write leaves stored. -/
theorem Effect.status_of_statusWrite (he : Effect s a s')
    (hw : s.statusWrite a = some (loaded, status)) :
    s'.status loaded.id = (s.status loaded.id).map (column loaded.status status.value) := by
  rcases he.reports with ⟨hnone, -⟩ | ⟨hnone, -⟩ | ⟨loaded', status', now, hw', hcommit⟩
  · rw [hnone] at hw; cases hw
  · rw [hnone] at hw; cases hw
  · rw [hw] at hw'
    cases hw'
    rw [status_commitStatus hcommit, if_pos rfl]

/-- The UPDATE leaves the status out. -/
theorem Effect.status_of_clean (he : Effect s a s') (hw : s.statusWrite a = some (loaded, status))
    (hclean : loaded.status = status.value) : s'.status loaded.id = s.status loaded.id := by
  rw [he.status_of_statusWrite hw, hclean, WriteBack.map_column_self]

/-- The UPDATE names the status. -/
theorem Effect.status_of_dirty (he : Effect s a s') (hco : Coherent s)
    (hw : s.statusWrite a = some (loaded, status)) (hdirty : loaded.status ≠ status.value) :
    s'.status loaded.id = some status.value := by
  obtain ⟨row, hrow⟩ := Option.isSome_iff_exists.mp (hco.isSome_of_statusWrite hw)
  rw [he.status_of_statusWrite hw, System.status, hrow]
  exact congrArg some (WriteBack.column_of_ne (Ne.symm hdirty))

/-- **When a status write takes effect.** Right after the commit of any operation that sets
the status of a report, in any reachable state, the stored status is the one written if and
only if the operation had loaded another status or the status written was stored already. -/
theorem status_after_write (hs : machine.Reachable s) (hstep : machine.step s a = some s')
    (hw : s.statusWrite a = some (loaded, status)) :
    ∃ stored stored', s.status loaded.id = some stored ∧ s'.status loaded.id = some stored' ∧
      (stored' = status.value ↔ loaded.status ≠ status.value ∨ stored = status.value) := by
  obtain ⟨row, hrow⟩ :=
    Option.isSome_iff_exists.mp ((coherent_of_reachable hs).isSome_of_statusWrite hw)
  have hstored : s.status loaded.id = some row.status := by rw [System.status, hrow]; rfl
  refine ⟨row.status, column loaded.status status.value row.status, hstored, ?_,
    column_eq_assigned_iff⟩
  rw [(effect_of_step hstep).status_of_statusWrite hw, hstored]
  rfl

end

/-! ## Two runs -/

/-- A report in `processing`, which a reprocess request has loaded. -/
def resetOfProcessing : List Action :=
  Sample.create 0 "r" ++ Sample.activity 0 0 1 ++ Sample.activity 0 1 2 ++
    [.arrive (.reprocess "r"), .loadForReprocess 1]

/-- The same report, loaded before its run got to `processing`. -/
def lateReset : List Action :=
  Sample.create 0 "r" ++ [.arrive (.reprocess "r"), .loadForReprocess 1] ++
    Sample.activity 0 0 1 ++ Sample.activity 0 1 2

/-- A reset of a report in `processing` takes effect. -/
theorem status_after_write_resetOfProcessing :
    ∃ (_ : UnicodeData) (s s' : System) (loaded : Report), machine.Reachable s ∧
      machine.step s (.commitReset 1 3 false) = some s' ∧
      s.statusWrite (.commitReset 1 3 false) = some (loaded, .queued) ∧
      s'.status loaded.id = some ReportStatus.queued.value := by
  let _ := asciiUnicode
  have hrun : ((machine.run empty resetOfProcessing).any fun s =>
      (machine.step s (.commitReset 1 3 false)).any fun _ =>
        (s.statusWrite (.commitReset 1 3 false)).any fun w =>
          w.2 = .queued && w.1.status ≠ ReportStatus.queued.value) = true := by decide +kernel
  obtain ⟨s, s', hs, hstep, hp⟩ := Machine.Along.exists_step_of_runIf rfl hrun
  obtain ⟨⟨loaded, status⟩, hw, hp⟩ := (Option.any_eq_true _ _).mp hp
  simp only [Bool.and_eq_true, decide_eq_true_eq] at hp
  obtain ⟨rfl, hne⟩ := hp
  obtain ⟨stored, stored', -, hstored', hiff⟩ := status_after_write hs hstep hw
  exact ⟨_, s, s', loaded, hs, hstep, hw, hiff.mpr (.inl hne) ▸ hstored'⟩

/-- A reset can be lost: the run has committed `processing` since the request loaded `queued`,
and after the commit of the reset the report is still in `processing`. -/
theorem lost_reset : ¬ ∀ (_ : UnicodeData) (s s' : System) (a : Action) (loaded : Report)
    (status : ReportStatus), machine.Reachable s → machine.step s a = some s' →
    s.statusWrite a = some (loaded, status) → s'.status loaded.id = some status.value := by
  intro h
  let _ := asciiUnicode
  have hrun : ((machine.run empty lateReset).any fun s =>
      (machine.step s (.commitReset 1 3 false)).any fun s' =>
        (s.statusWrite (.commitReset 1 3 false)).any fun w =>
          s'.status w.1.id ≠ some w.2.value) = true := by decide +kernel
  obtain ⟨s, s', hs, hstep, hp⟩ := Machine.Along.exists_step_of_runIf rfl hrun
  obtain ⟨⟨loaded, status⟩, hw, hp⟩ := (Option.any_eq_true _ _).mp hp
  exact (of_decide_eq_true hp) (h _ s s' _ loaded status hs hstep hw)

end ReportTriage.System

import ReportTriage.Control

/-!
# The failure a run reports

The `except ActivityError` block records the failure with `mark_report_failed_activity` and
raises the error it caught. Its inner `except ApplicationError` is meant to drop the error of
that activity, but what a failed activity raises is an `ActivityError`, so it replaces the error
caught.
-/

namespace ReportTriage

/-- One of the attempts of `mark_report_failed_activity` that its policy allows returns. -/
def Behaviour.MarksFailed (b : Behaviour) (r : String) : Prop :=
  ∃ k < 3, (∃ v, b.answer (.markReportFailed r) (k + 1) = .ok v) ∧
    ∀ j < k, ∃ g, b.answer (.markReportFailed r) (j + 1) = .error g ∧ failRetry.retries g = true

namespace WorkflowPc

variable {pc : WorkflowPc} {r : String} {call : ActivityCall}

/-- The `except` block awaits one activity, with its own policy. -/
theorem call_of_isFailing (h : pc.call r = some call) (hfail : pc.isFailing = true) :
    ∃ err, pc = markFailed err ∧ call = ⟨.markReportFailed r, 10, failRetry⟩ := by
  cases pc <;> cases h <;> first | exact ⟨_, rfl, rfl⟩ | cases hfail

end WorkflowPc

namespace Execution

variable {b : Behaviour} {r : String} {e e' : Execution}

/-- Where a run stands that caught `f`. -/
def Caught (f : Failure) (pc : WorkflowPc) : Prop :=
  pc = .markFailed f ∨ pc = .raised f ∨ ∃ g, pc = .markFailedRaised g

/-- What a run in its `except` block, or past it, owes to the behaviour. -/
structure Reporting (b : Behaviour) (r : String) (e : Execution) : Prop where
  caught : ∀ x ∈ e.log, x.name ≠ .publishTriageEvents → x.name ≠ .markReportFailed →
    ∀ f, x.FailsWith f → Caught f e.run.pc
  tried : ∀ err, e.run.pc = .markFailed err → ∀ j < e.run.attempts,
    ∃ g, b.answer (.markReportFailed r) (j + 1) = .error g ∧ failRetry.retries g = true
  raised : ∀ err, e.run.pc = .raised err → b.MarksFailed r
  replaced : ∀ err, e.run.pc = .markFailedRaised err → ¬ b.MarksFailed r

/-- Outside the `except` block nothing is owed. -/
theorem reporting_of_not_failing (h : Failing e) (hfail : e.run.pc.isFailing = false) :
    Reporting b r e where
  caught x hx hpublish hmark f hf := by
    rw [h.isFailing_iff.mpr ⟨x, hx, hpublish, hmark, f, hf⟩] at hfail
    cases hfail
  tried err hpc := by rw [hpc] at hfail; cases hfail
  raised err hpc := by rw [hpc] at hfail; cases hfail
  replaced err hpc := by rw [hpc] at hfail; cases hfail

/-- The first fatal failure is the one caught. -/
theorem reporting_of_fatal (hfailing : Failing e) {call : ActivityCall} {f : Failure}
    (hfail : e.run.pc.isFailing = false)
    (hf : (e.entry b call).FailsWith f) :
    Reporting b r ⟨{ e.run with pc := .markFailed f, attempts := 0, outstanding := none },
      e.log ++ [e.entry b call]⟩ where
  caught x hx hpublish hmark g hg := by
    rcases List.mem_append.mp hx with hx | hx
    · rw [hfailing.isFailing_iff.mpr ⟨x, hx, hpublish, hmark, g, hg⟩] at hfail
      cases hfail
    · rw [List.mem_singleton.mp hx] at hg
      cases hf.1.symm.trans hg.1
      exact .inl rfl
  tried err hpc j hj := absurd hj (Nat.not_lt_zero j)
  raised err hpc := by cases hpc
  replaced err hpc := by cases hpc

/-- The attempts of `mark_report_failed_activity` so far, and the next one, decide whether one
of them returns. -/
theorem marksFailed_iff_of_settled {n : ℕ} (hn : n < 3)
    (htried : ∀ j < n, ∃ g, b.answer (.markReportFailed r) (j + 1) = .error g ∧
      failRetry.retries g = true)
    (hlast : ∀ g, b.answer (.markReportFailed r) (n + 1) = .error g →
      ¬ (n + 1 < 3 ∧ failRetry.retries g = true)) :
    b.MarksFailed r ↔ ∃ v, b.answer (.markReportFailed r) (n + 1) = .ok v := by
  refine ⟨?_, fun hv => ⟨n, hn, hv, htried⟩⟩
  rintro ⟨k, hk, ⟨v, hv⟩, hbefore⟩
  rcases Nat.lt_trichotomy k n with hlt | rfl | hgt
  · obtain ⟨g, hg, -⟩ := htried k hlt
    rw [hv] at hg
    cases hg
  · exact ⟨v, hv⟩
  · obtain ⟨g, hg, hretry⟩ := hbefore n hgt
    exact absurd ⟨by omega, hretry⟩ (hlast g hg)

theorem eq_of_caught {f err : Failure} (h : Caught f (.markFailed err)) : f = err := by
  rcases h with h | h | ⟨g, h⟩ <;> cases h
  rfl

/-- In the `except` block: the caught failure is the only one that was fatal. -/
theorem Reporting.caught_append (h : Reporting b r e) {call : ActivityCall} {err : Failure}
    (hcall : e.run.pc.call e.run.reportId = some call) (hpc : e.run.pc = .markFailed err) :
    ∀ x ∈ e.log ++ [e.entry b call], x.name ≠ .publishTriageEvents →
      x.name ≠ .markReportFailed → ∀ f, x.FailsWith f → f = err := by
  intro x hx hpublish hmark f hf
  rcases List.mem_append.mp hx with hx | hx
  · exact eq_of_caught (hpc ▸ h.caught x hx hpublish hmark f hf)
  · rw [List.mem_singleton.mp hx] at hmark
    rw [hpc] at hcall
    cases hcall
    exact absurd rfl hmark

theorem Reporting.step (h : Reporting b r e) (hreach : (machine b r).Reachable e)
    (hs : e.next b = some e') : Reporting b r e' := by
  have hfailing := failing_of_reachable hreach
  have hlt := (counted_of_reachable hreach).attempts_lt
  have hid := (resulting_of_reachable hreach).reportId
  have hfailing' : Failing e' := hfailing.step (step_of_next hs)
  cases hfail : e.run.pc.isFailing with
  | false =>
    cases step_of_next hs with
    | @succeeded call v pc hcall hv hresume =>
      exact reporting_of_not_failing hfailing' ((WorkflowPc.isFailing_resume hresume).trans hfail)
    | @retried call f hcall hf hlt hretry => exact reporting_of_not_failing hfailing' hfail
    | @gaveUp call f hcall hf =>
      rcases WorkflowPc.raise_cases hcall f with
        ⟨hfail', -⟩ | ⟨-, -, hnext, -⟩ | ⟨-, -, -, hraise⟩
      · cases hfail'.symm.trans hfail
      · exact reporting_of_not_failing hfailing' hnext
      · rw [hraise]
        exact reporting_of_fatal hfailing hfail hf
  | true =>
    have hcases : ∃ err, e.run.pc = .markFailed err := by
      obtain ⟨call, hcall, -⟩ := Option.bind_eq_some_iff.mp hs
      obtain ⟨err, hpc, -⟩ := WorkflowPc.call_of_isFailing hcall hfail
      exact ⟨err, hpc⟩
    obtain ⟨err, hpc⟩ := hcases
    have htried := h.tried err hpc
    cases step_of_next hs with
    | @succeeded call v pc hcall hv hresume =>
      have hcaught := h.caught_append (b := b) hcall hpc
      rw [hpc] at hcall hresume
      cases v <;> cases hresume
      cases hcall
      rw [hid] at hv
      refine ⟨?_, nofun, ?_, nofun⟩
      · intro x hx hpublish hmark f hf
        rw [hcaught x hx hpublish hmark f hf]
        exact .inr (.inl rfl)
      · intro _ _
        exact ⟨_, hlt, ⟨_, hv⟩, htried⟩
    | @retried call f hcall hf hnext hretry =>
      have hcaught := h.caught_append (b := b) hcall hpc
      rw [hpc] at hcall
      cases hcall
      rw [hid] at hf
      refine ⟨?_, ?_, ?_, ?_⟩
      · intro x hx hpublish hmark g hg
        rw [hcaught x hx hpublish hmark g hg]
        exact .inl hpc
      · intro _ _ j hj
        rcases Nat.lt_succ_iff_lt_or_eq.mp hj with hj | rfl
        · exact htried j hj
        · exact ⟨f, hf, hretry⟩
      · intro g hg
        cases hpc.symm.trans hg
      · intro g hg
        cases hpc.symm.trans hg
    | @gaveUp call f hcall hf =>
      have hallows := WorkflowPc.allows_call hcall
      rw [hpc] at hcall
      cases hcall
      rw [hpc]
      obtain ⟨hf, hlast⟩ := hf
      rw [hid] at hf
      refine ⟨fun x hx hpublish hmark g hg => .inr (.inr ⟨f, rfl⟩), nofun, nofun, ?_⟩
      intro _ _
      rw [marksFailed_iff_of_settled hlt htried]
      · rintro ⟨v, hv⟩
        cases hf.symm.trans hv
      · intro g hg
        cases hf.symm.trans hg
        exact fun hagain => hlast ⟨(hallows _).trans (decide_eq_true hagain.1), hagain.2⟩

theorem reporting_of_reachable (h : (machine b r).Reachable e) : Reporting b r e :=
  h.invariant
    (fun h0 => reporting_of_not_failing (failing_of_reachable (.init h0)) (by subst h0; rfl))
    fun ht hI hs => hI.step ht hs

/-- **When the run reports the failure it caught.** An activity other than the publishing has
failed for good with `f`: the run ends, and it ends by raising `f` just when the
`mark_report_failed_activity` that follows succeeds within its attempts. -/
theorem original_failure (h : (machine b r).Reachable e) {x : Entry} {f : Failure}
    (hx : x ∈ e.log) (hpublish : x.name ≠ .publishTriageEvents)
    (hmark : x.name ≠ .markReportFailed) (hf : x.FailsWith f) :
    (∃ e', (machine b r).Path (fun _ _ => True) e e' ∧ e'.run.pc.isClosed = true) ∧
    ∀ e', (machine b r).Path (fun _ _ => True) e e' → e'.run.pc.isClosed = true →
      (e'.run.pc = .raised f ↔ b.MarksFailed r) := by
  refine ⟨exists_closed h, ?_⟩
  intro e' hp hclosed
  have hreporting := reporting_of_reachable (h.path hp)
  have hcaught := hreporting.caught x ((log_prefix_of_path hp).subset hx) hpublish hmark f hf
  rcases hcaught with hpc | hpc | ⟨g, hpc⟩
  · rw [hpc] at hclosed
    cases hclosed
  · exact iff_of_true hpc (hreporting.raised f hpc)
  · refine iff_of_false (fun hraised => ?_) (hreporting.replaced g hpc)
    cases hpc.symm.trans hraised

/-- The database is up, and has every report but this one. -/
def missingReport : Behaviour where
  answer
    | .loadReport r, _ => .error (.reportNotFound r)
    | .markReportProcessing r, _ | .markReportClassified r, _ | .markReportFailed r, _ =>
      .error (.lookupError r)
    | _, _ => .error .timeout
  returns activity n v h := by cases activity <;> cases h

/-- The same, but the mark succeeds on the second attempt. -/
def markedLater : Behaviour where
  answer
    | .markReportFailed r, n => if n < 2 then .error (.lookupError r) else .ok .null
    | activity, n => missingReport.answer activity n
  returns activity n v h := by
    cases activity with
    | markReportFailed r =>
      dsimp only at h
      split at h <;> cases h
      trivial
    | _ => cases h

/-- The attempt to load a report that does not exist. -/
def notFoundEntry : Entry := ⟨⟨.loadReport "r", 10, defaultRetry⟩, 1, .error (.reportNotFound "r")⟩

/-- The run after it. -/
def afterNotFound : Execution :=
  ⟨⟨"r", .markFailed (.reportNotFound "r"), 0, none, false⟩, [notFoundEntry]⟩

theorem failsWith_notFoundEntry : notFoundEntry.FailsWith (.reportNotFound "r") :=
  ⟨rfl, fun h => absurd h.2 (by decide)⟩

theorem original_failure_markedLater : ∃ e,
    (machine markedLater "r").Reachable e ∧ e.run.pc = .raised (.reportNotFound "r") := by
  have hreach : (machine markedLater "r").Reachable afterNotFound :=
    ⟨_, rfl, .single (a := ()) trivial rfl⟩
  obtain ⟨⟨e, hp, hclosed⟩, hiff⟩ := original_failure hreach (List.mem_singleton_self _) (by decide)
    (by decide) failsWith_notFoundEntry
  have hmarks : markedLater.MarksFailed "r" := by
    refine ⟨1, by decide, ⟨_, rfl⟩, ?_⟩
    intro j hj
    obtain rfl : j = 0 := by omega
    exact ⟨_, rfl, rfl⟩
  exact ⟨e, hreach.path hp, (hiff e hp hclosed).mpr hmarks⟩

/-- The report does not exist: the run ends with the `LookupError` of the mark. -/
theorem failure_replaced : ∃ e, (machine missingReport "r").Reachable e ∧
    e.run.pc.isClosed = true ∧
    (∃ x ∈ e.log, x.name = .loadReport ∧ x.FailsWith (.reportNotFound "r")) ∧
    e.run.pc = .markFailedRaised (.lookupError "r") ∧
    e.run.pc ≠ .raised (.reportNotFound "r") := by
  have hreach : (machine missingReport "r").Reachable afterNotFound :=
    ⟨_, rfl, .single (a := ()) trivial rfl⟩
  have hmarks : (machine missingReport "r").run afterNotFound [(), (), ()] =
      some ⟨⟨"r", .markFailedRaised (.lookupError "r"), 0, none, false⟩,
        notFoundEntry :: (List.range 3).map fun i =>
          ⟨⟨.markReportFailed "r", 10, failRetry⟩, i + 1, .error (.lookupError "r")⟩⟩ := rfl
  exact ⟨_, hreach.path (.of_runIf hmarks), rfl,
    ⟨_, List.mem_cons_self, rfl, failsWith_notFoundEntry⟩, rfl, nofun⟩

end Execution

end ReportTriage

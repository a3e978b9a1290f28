import ReportTriage.Intake
import ReportTriage.StatusWrites

/-!
# The start window

Both endpoints commit `queued` first and start the workflow second; in between, and until the
answer of a start that went wrong has been turned into the sentinel `workflow_start_failed`, the
request is in its start window. A queued report nobody will process is one whose last window was
left early; a sentinel that does not mean what it says is one written out of a window that is
not the report's latest, or after a start the server had accepted.

## Main definitions

* `System.sinceQueued`, `System.acceptedSinceQueued` — what happened to a report since it was
  last set to queued.
* `System.settles`, `System.no_stranded_report` — what holds when no request is in flight, in a
  run where no report is left unaccounted for.
* `System.stranded_report` — a window left early.
* `System.startsInTurn`, `System.sentinel_means_not_started` — what the sentinel means, in a run
  where the starts of the report do not get in each other's way.
* `System.sentinel_after_start` — a start that is accepted and raises.
-/

namespace ReportTriage

/-- The event sets the report to queued. -/
def Event.setsQueued (r : String) : Event → Bool
  | inserted _ r' => r' = r
  | statusCommitted _ r' status stored => r' = r && status = .queued && stored
  | _ => false

/-- The event is a start of the report that the server accepted. -/
def Event.isAcceptedStart (r : String) : Event → Bool
  | startCalled _ r' outcome => r' = r && outcome.reachesServer
  | _ => false

/-- The event sets the status of the report, from an activity. -/
def Event.isActivityWrite (r : String) : Event → Bool
  | statusCommitted (.attempt _) r' _ stored => r' = r && stored
  | _ => false

namespace System

/-- The events since the report was last set to queued, latest first. -/
def sinceQueued (s : System) (r : String) : List Event :=
  s.history.takeWhile fun ev => !ev.setsQueued r

/-- The server has accepted a start of the report since it was last set to queued. -/
def acceptedSinceQueued (s : System) (r : String) : Bool :=
  (s.sinceQueued r).any (Event.isAcceptedStart r)

/-- An activity has set the status of the report since it was last set to queued. -/
def writtenSinceQueued (s : System) (r : String) : Bool :=
  (s.sinceQueued r).any (Event.isActivityWrite r)

/-- Request `q` is in its start window, for report `r`. -/
def InWindow (s : System) (r : String) (q : ℕ) : Prop :=
  ∃ e pc, s.requests[q]? = some ⟨e, pc⟩ ∧ pc.startWindow = some r

theorem any_startWindow_iff {s : System} {r : String} {q : ℕ} :
    (s.requests[q]?.any fun x => x.pc.startWindow = some r) = true ↔ s.InWindow r q := by
  constructor
  · intro h
    obtain ⟨⟨e, pc⟩, hq, hpc⟩ := (Option.any_eq_true _ _).mp h
    exact ⟨e, pc, hq, of_decide_eq_true hpc⟩
  · rintro ⟨e, pc, hq, hpc⟩
    simp [hq, hpc]

instance (s : System) (r : String) (q : ℕ) : Decidable (s.InWindow r q) :=
  decidable_of_iff _ any_startWindow_iff

/-- Some request is in its start window for the report. -/
def windowOpen (s : System) (r : String) : Bool :=
  s.requests.any fun x => x.pc.startWindow = some r

theorem windowOpen_iff {s : System} {r : String} : s.windowOpen r = true ↔ ∃ q, s.InWindow r q := by
  simp only [windowOpen, List.any_eq_true]
  constructor
  · rintro ⟨x, hx, h⟩
    obtain ⟨q, hq⟩ := List.getElem?_of_mem hx
    exact ⟨q, any_startWindow_iff.mp (by rw [hq]; exact h)⟩
  · rintro ⟨q, e, pc, hq, hpc⟩
    exact ⟨_, List.mem_of_getElem? hq, by simp [hpc]⟩

theorem not_inWindow_of_ended {s : System} {r : String}
    (h : ∀ x ∈ s.requests, x.pc.isEnded = true) (q : ℕ) : ¬ s.InWindow r q := by
  rintro ⟨e, pc, hq, hpc⟩
  have hended := h _ (List.mem_of_getElem? hq)
  cases pc with
  | done | stopped => cases hpc
  | _ => cases hended

variable {s s' : System} {a : Action} {r : String}

theorem sinceQueued_cons {ev : Event} (h : s'.history = ev :: s.history) :
    s'.sinceQueued r = if ev.setsQueued r then [] else ev :: s.sinceQueued r := by
  simp only [sinceQueued, h, List.takeWhile_cons]
  cases ev.setsQueued r <;> rfl

theorem acceptedSinceQueued_cons {ev : Event} (h : s'.history = ev :: s.history) :
    s'.acceptedSinceQueued r =
      (!ev.setsQueued r && (ev.isAcceptedStart r || s.acceptedSinceQueued r)) := by
  simp only [acceptedSinceQueued, sinceQueued_cons h]
  cases ev.setsQueued r <;> simp

theorem writtenSinceQueued_cons {ev : Event} (h : s'.history = ev :: s.history) :
    s'.writtenSinceQueued r =
      (!ev.setsQueued r && (ev.isActivityWrite r || s.writtenSinceQueued r)) := by
  simp only [writtenSinceQueued, sinceQueued_cons h]
  cases ev.setsQueued r <;> simp

section
variable [UnicodeData]

/-- Unless the report is set to queued again, what happened since stays so. -/
theorem Effect.sinceQueued (he : Effect s a s')
    (hset : ∀ ev, Logged s a ev → ev.setsQueued r = false) :
    (s.acceptedSinceQueued r = true → s'.acceptedSinceQueued r = true) ∧
      (s.writtenSinceQueued r = true → s'.writtenSinceQueued r = true) := by
  rcases he.history with hsame | ⟨ev, hlogged, hcons⟩
  · simp only [acceptedSinceQueued, writtenSinceQueued, System.sinceQueued, hsame]
    exact ⟨id, id⟩
  · rw [acceptedSinceQueued_cons hcons, writtenSinceQueued_cons hcons, hset ev hlogged]
    exact ⟨fun h => by simp [h], fun h => by simp [h]⟩

omit [UnicodeData] in
/-- The SELECT in the `except` block of `create_report` finds the row. -/
theorem Coherent.getReport_ne_none (h : Coherent s) {q : ℕ} {e : Endpoint} {pc : RequestPc}
    (hq : s.requests[q]? = some ⟨e, pc⟩) (hpc : pc.startWindow = some r) :
    s.getReport r ≠ none :=
  Option.isSome_iff_ne_none.mp (h.window q e pc r hq hpc).2

/-- How a start window ends. -/
theorem Effect.inWindow (he : Effect s a s') (hco : Coherent s) {q : ℕ} (h : s.InWindow r q) :
    s'.InWindow r q ∨
    (∃ e held, a = .start q .accepted ∧ s.requests[q]? = some ⟨e, .start r held⟩) ∨
    (∃ now e loaded cause, a = .commitStartFailed q now ∧
      s.requests[q]? = some ⟨e, .markStartFailed loaded cause⟩ ∧ loaded.id = r ∧
      s'.reports = commitStatus s.reports loaded .workflowStartFailed now) ∨
    a = .dropStartFailed q ∨ a = .stop q := by
  obtain ⟨e, pc, hq, hpc⟩ := h
  obtain ⟨pc', hq', rfl | hstep⟩ := he.request_next hq
  · exact .inl ⟨e, _, hq', hpc⟩
  · cases hstep with
    | moved hm =>
      cases hm with
      | reloaded hget =>
        cases hpc
        exact .inl ⟨e, _, hq', congrArg some (getReport_eq_some hget).2⟩
      | missing hget =>
        cases hpc
        exact absurd hget (hco.getReport_ne_none hq rfl)
      | dropped => exact .inr (.inr (.inr (.inl rfl)))
      | stopped => exact .inr (.inr (.inr (.inr rfl)))
      | failed hbefore =>
        rw [isBeforeStart_of_startWindow hpc] at hbefore
        cases hbefore
      | _ => cases hpc
    | inserted | reset => cases hpc
    | started =>
      cases hpc
      exact .inr (.inl ⟨e, _, rfl, hq⟩)
    | notStarted outcome houtcome =>
      cases hpc
      exact .inl ⟨e, _, hq', Endpoint.Holds.startWindow (hco.holds q e _ hq)⟩
    | startFailed now =>
      cases hpc
      exact .inr (.inr (.inl ⟨now, e, _, _, rfl, hq, rfl, (he.of_commitStartFailed hq).2⟩))

/-! ## No stranded report -/

/-- The write of the sentinel is not lost: the instance does not say so already, or the row
does. -/
def marksStartFailed (s : System) (loaded : Report) : Bool :=
  loaded.status ≠ ReportStatus.workflowStartFailed.value ||
    s.status loaded.id = some ReportStatus.workflowStartFailed.value

omit [UnicodeData] in
theorem Coherent.status_commitStartFailed (h : Coherent s) {q : ℕ} {e : Endpoint}
    {loaded : Report} {cause : String}
    (hq : s.requests[q]? = some ⟨e, .markStartFailed loaded cause⟩)
    {now : Time} (hcommit : s'.reports = commitStatus s.reports loaded .workflowStartFailed now)
    (hkept : s.marksStartFailed loaded = true) :
    s'.status loaded.id = some ReportStatus.workflowStartFailed.value := by
  obtain ⟨row, hrow⟩ := Option.isSome_iff_exists.mp (h.window q e _ loaded.id hq rfl).2
  simp only [marksStartFailed, System.status, hrow, Option.map_some, Option.some.injEq,
    Bool.or_eq_true, decide_eq_true_eq] at hkept
  rw [status_commitStatus hcommit, if_pos rfl, System.status, hrow, Option.map_some,
    Option.map_some, WriteBack.column_eq_assigned_iff.mpr hkept]

/-- A start of the report has been accepted since it was set to queued, or visibly has not. -/
def settled (s : System) (r : String) : Bool :=
  s.acceptedSinceQueued r || s.status r ≠ some ReportStatus.queued.value &&
    (s.status r = some ReportStatus.workflowStartFailed.value || s.writtenSinceQueued r)

/-- A request other than `q` is in its start window for the report. -/
def windowBeside (s : System) (r : String) (q : ℕ) : Bool :=
  (List.range s.requests.length).any fun p => p ≠ q && s.InWindow r p

/-- The step leaves no report unaccounted for. The commit of `queued` does not raise, or another
request has a window on the report. A request in its window is not stopped, and does not fail to
write the sentinel, unless there is another window or the report is settled; and a 503 body with
a status is not sent after such a failure unless the sentinel is stored already. The write is not
lost either, which it can be where the row was selected again. -/
def settles (s : System) : Action → Bool
  | .commitInsert _ raises => !raises
  | .commitReset q _ raises => !raises || s.requests[q]?.all fun x => match x.pc with
    | .reset loaded => s.windowBeside loaded.id q
    | _ => true
  | .stop q => s.requests[q]?.all fun x => x.pc.startWindow.all fun r =>
    s.settled r || s.windowBeside r q
  | .dropStartFailed q => s.requests[q]?.all fun x => x.pc.startWindow.all fun r =>
    match x.endpoint with
    | .create _ _ => s.status r = some ReportStatus.workflowStartFailed.value
    | .reprocess _ => s.settled r || s.windowBeside r q
  | .commitStartFailed q _ => s.requests[q]?.all fun x => match x.pc with
    | .markStartFailed loaded _ => s.marksStartFailed loaded
    | _ => true
  | _ => true

/-- The report is settled, or a request is dealing with it. -/
def Accounted (s : System) (r : String) : Prop := s.settled r = true ∨ ∃ q, s.InWindow r q

omit [UnicodeData] in
theorem settled_iff : s.settled r = true ↔ s.acceptedSinceQueued r = true ∨
    s.status r ≠ some ReportStatus.queued.value ∧
      (s.status r = some ReportStatus.workflowStartFailed.value ∨
        s.writtenSinceQueued r = true) := by
  simp [settled]

omit [UnicodeData] in
theorem settled_of_sentinel (h : s.status r = some ReportStatus.workflowStartFailed.value) :
    s.settled r = true :=
  settled_iff.mpr (.inr ⟨by rw [h]; decide, .inl h⟩)

omit [UnicodeData] in
theorem windowBeside_iff {q : ℕ} :
    s.windowBeside r q = true ↔ ∃ p, p ≠ q ∧ s.InWindow r p := by
  simp only [windowBeside, List.any_eq_true, Bool.and_eq_true, decide_eq_true_eq, List.mem_range]
  constructor
  · rintro ⟨p, -, hp⟩
    exact ⟨p, hp⟩
  · rintro ⟨p, hne, e, pc, hp, hwin⟩
    exact ⟨p, (List.getElem?_eq_some_iff.mp hp).1, hne, e, pc, hp, hwin⟩

/-- A window stays open while the request does nothing. -/
theorem Effect.inWindow_kept (he : Effect s a s') (hco : Coherent s) {p : ℕ} (h : s.InWindow r p)
    (ha : a.request ≠ some p) : s'.InWindow r p := by
  rcases he.inWindow hco h with hstay | ⟨e, held, rfl, -⟩ | ⟨now, e, loaded, cause, rfl, -⟩ |
    rfl | rfl
  · exact hstay
  all_goals exact (ha rfl).elim

theorem Effect.accounted_of_windowBeside (he : Effect s a s') (hco : Coherent s) {q : ℕ}
    (ha : a.request = some q) (h : s.windowBeside r q = true) : s'.Accounted r := by
  obtain ⟨p, hne, hwin⟩ := windowBeside_iff.mp h
  exact .inr ⟨p, he.inWindow_kept hco hwin fun hp => hne (Option.some.inj (hp.symm.trans ha))⟩

/-- The commit of a reset opens a window. -/
theorem Effect.inWindow_of_commitReset {q : ℕ} {now : Time} {e : Endpoint} {loaded : Report}
    (he : Effect s (.commitReset q now false) s') (hq : s.requests[q]? = some ⟨e, .reset loaded⟩) :
    s'.InWindow loaded.id q :=
  ⟨e, _, he.of_commitReset hq, rfl⟩

theorem Effect.accounted_of_commitReset {q : ℕ} {now : Time} {raises : Bool} {e : Endpoint}
    {loaded : Report} (he : Effect s (.commitReset q now raises) s') (hco : Coherent s)
    (hok : s.settles (.commitReset q now raises) = true)
    (hq : s.requests[q]? = some ⟨e, .reset loaded⟩) : s'.Accounted loaded.id := by
  cases raises with
  | false => exact .inr ⟨q, he.inWindow_of_commitReset hq⟩
  | true => exact he.accounted_of_windowBeside hco rfl (by simpa [settles, hq] using hok)

/-- A step that sets the report to queued leaves a window open on it. -/
theorem accounted_of_setsQueued (he : Effect s a s') (hco : Coherent s) (hok : s.settles a = true)
    {ev : Event} (hlogged : Logged s a ev) (hset : ev.setsQueued r = true) : s'.Accounted r := by
  cases hlogged with
  | @inserted q e row raises hq =>
    obtain rfl : raises = false := by simpa [settles] using hok
    obtain rfl : row.id = r := by simpa [Event.setsQueued] using hset
    exact .inr ⟨q, e, _, (he.of_commitInsert hq).1, rfl⟩
  | @reset q e loaded now raises hq =>
    obtain ⟨rfl, -⟩ : loaded.id = r ∧ _ := by
      simpa [Event.setsQueued, Event.ofCommit] using hset
    exact he.accounted_of_commitReset hco hok hq
  | started => cases hset
  | startFailed => simp [Event.setsQueued, Event.ofCommit] at hset
  | marked hx hp hw =>
    simp only [Event.setsQueued, Event.ofCommit, Bool.and_eq_true, decide_eq_true_eq] at hset
    exact absurd hset.1.2 (Activity.ne_of_statusWrite hw).1

/-- **One step** of a report that is settled. -/
theorem accounted_of_settled (h : s.settled r = true) (hco : Coherent s) (he : Effect s a s')
    (hok : s.settles a = true) (hset : ∀ ev, Logged s a ev → ev.setsQueued r = false) :
    s'.Accounted r := by
  have hsince := he.sinceQueued hset
  rcases settled_iff.mp h with hacc | ⟨hne, hwhy⟩
  · exact .inl (settled_iff.mpr (.inl (hsince.1 hacc)))
  have hkept : s'.status r = s.status r → s'.Accounted r := fun hsame =>
    .inl (settled_iff.mpr (.inr (hsame ▸ ⟨hne, hwhy.imp_right hsince.2⟩)))
  rcases he.status r with hsame | ⟨q, e, row, raises, rfl, hq, hid, -, -⟩ |
    ⟨loaded, status, hw, rfl, hcolumn⟩
  · exact hkept hsame
  · have hnot := hset _ (.inserted hq)
    simp [Event.setsQueued, hid] at hnot
  · rcases statusWrite_eq_some hw with ⟨q, e, now, raises, rfl, hq, rfl⟩ |
      ⟨q, e, now, cause, rfl, hq, rfl⟩ | ⟨i, x, input, r, rfl, hx, hp, hwrite⟩
    · exact he.accounted_of_commitReset hco hok hq
    · have hcommit := (he.of_commitStartFailed hq).2
      have hkept : s.marksStartFailed loaded = true := by simpa [settles, hq] using hok
      exact .inl (settled_of_sentinel (hco.status_commitStartFailed hq hcommit hkept))
    · by_cases hdirty : loaded.status = status.value
      · exact hkept (he.status_of_clean hw hdirty)
      -- An activity never writes `queued`, and has written since.
      have hstatus := he.status_of_dirty hco hw hdirty
      obtain ⟨result, -, -, hcommit, hcons⟩ := he.of_mark hx hp hwrite
      refine .inl (settled_iff.mpr (.inr ⟨?_, .inr ?_⟩))
      · rw [hstatus, ne_eq, Option.some.injEq, ReportStatus.value_inj]
        exact (Activity.ne_of_statusWrite hwrite).1
      · have hnot : (Event.ofCommit (.attempt i) loaded status s'.reports).setsQueued loaded.id
            = false := hset _ (hcommit ▸ .marked hx hp hwrite)
        rw [writtenSinceQueued_cons hcons, hnot, ofCommit_eq]
        simp [Event.isActivityWrite, hstatus]

/-- **One step** that leaves a window. -/
theorem accounted_of_settled_or_windowBeside {q : ℕ} (ha : a.request = some q)
    (h : s.settled r = true ∨ s.windowBeside r q = true) (hco : Coherent s) (he : Effect s a s')
    (hok : s.settles a = true) (hset : ∀ ev, Logged s a ev → ev.setsQueued r = false) :
    s'.Accounted r := by
  rcases h with hsettled | hbeside
  · exact accounted_of_settled hsettled hco he hok hset
  · exact he.accounted_of_windowBeside hco ha hbeside

/-- **One step.** -/
theorem Accounted.step (h : s.Accounted r) (hco : Coherent s) (he : Effect s a s')
    (hok : s.settles a = true) : s'.Accounted r := by
  by_cases hset : ∃ ev, Logged s a ev ∧ ev.setsQueued r = true
  · obtain ⟨ev, hlogged, hset⟩ := hset
    exact accounted_of_setsQueued he hco hok hlogged hset
  have hset : ∀ ev, Logged s a ev → ev.setsQueued r = false := fun ev hlogged =>
    Bool.eq_false_iff.mpr fun h => hset ⟨ev, hlogged, h⟩
  rcases h with hsettled | ⟨q, hwin⟩
  · exact accounted_of_settled hsettled hco he hok hset
  -- The window goes on, or ends with an accepted start or the sentinel, or may be left.
  rcases he.inWindow hco hwin with hstay | ⟨e, held, rfl, hq⟩ |
    ⟨now, e, loaded, cause, rfl, hq, rfl, hcommit⟩ | rfl | rfl
  · exact .inr ⟨q, hstay⟩
  · obtain ⟨pc', -, -, -, hcons⟩ := he.of_start hq
    refine .inl (settled_iff.mpr (.inl ?_))
    rw [acceptedSinceQueued_cons hcons]
    simp [Event.setsQueued, Event.isAcceptedStart, StartOutcome.reachesServer]
  · have hkept : s.marksStartFailed loaded = true := by simpa [settles, hq] using hok
    exact .inl (settled_of_sentinel (hco.status_commitStartFailed hq hcommit hkept))
  · obtain ⟨e, pc, hq, hpc⟩ := hwin
    cases e with
    | create =>
      have hsentinel : s.status r = some ReportStatus.workflowStartFailed.value := by
        simpa [settles, hq, hpc] using hok
      exact accounted_of_settled (settled_of_sentinel hsentinel) hco he hok hset
    | reprocess =>
      have hleft : s.settled r = true ∨ s.windowBeside r q = true := by
        simpa [settles, hq, hpc] using hok
      exact accounted_of_settled_or_windowBeside rfl hleft hco he hok hset
  · obtain ⟨e, pc, hq, hpc⟩ := hwin
    have hleft : s.settled r = true ∨ s.windowBeside r q = true := by
      simpa [settles, hq, hpc] using hok
    exact accounted_of_settled_or_windowBeside rfl hleft hco he hok hset

theorem accounted_of_along (h : machine.Along (fun s a => s.settles a = true) s) :
    ∀ r, (s.status r).isSome → s.Accounted r := by
  refine h.invariant (I := fun s => ∀ r, (s.status r).isSome → s.Accounted r) ?_ ?_
  · rintro t rfl r hr
    simp [status, getReport, empty] at hr
  · intro t a u ht ih hok hstep r hr
    have he := effect_of_step hstep
    have hco := coherent_of_reachable ht.reachable
    cases hold : t.status r with
    | some σ => exact (ih r (by rw [hold]; rfl)).step hco he hok
    | none =>
      rcases he.status r with hsame | ⟨q, e, row, raises, rfl, hq, hid, -, -⟩ |
        ⟨loaded, status, -, -, hcolumn⟩
      · rw [hsame, hold] at hr
        cases hr
      · exact accounted_of_setsQueued he hco hok (.inserted hq) (by simpa [Event.setsQueued])
      · rw [hcolumn, hold] at hr
        cases hr

/-- **No stranded report, when none is left unaccounted for.** In a run whose steps all settle
the start of what they commit as queued: whenever no request is in flight, a start of every
queued report has been accepted since it was last set to queued, and a report without one says
`workflow_start_failed`, unless an activity of an earlier run has written its status since; and
a 503 body with a status gives the one stored when it is sent. -/
theorem no_stranded_report (hs : machine.Along (fun s a => s.settles a = true) s) :
    ((∀ x ∈ s.requests, x.pc.isEnded = true) → ∀ r status, s.status r = some status →
      (status = ReportStatus.queued.value → s.acceptedSinceQueued r = true) ∧
      (s.acceptedSinceQueued r = false → s.writtenSinceQueued r = false →
        status = ReportStatus.workflowStartFailed.value)) ∧
    (∀ (a : Action) (s' : System) (q : ℕ) (e : Endpoint) (detail : StartFailedDetail),
      s.settles a = true → machine.step s a = some s' →
      s'.requests[q]? = some ⟨e, .done (.createStartFailed detail)⟩ →
      s.requests[q]? ≠ s'.requests[q]? → s'.status detail.reportId = some detail.status) := by
  constructor
  · intro hended r status hr
    rcases accounted_of_along hs r (by rw [hr]; rfl) with hsettled | ⟨q, hwin⟩
    · rcases settled_iff.mp hsettled with hacc | ⟨hne, hwhy⟩
      · exact ⟨fun _ => hacc, fun hnot => by rw [hacc] at hnot; cases hnot⟩
      rw [hr] at hne hwhy
      refine ⟨fun hq => absurd (congrArg some hq) hne, ?_⟩
      intro _ hnot
      rcases hwhy with hsentinel | hwritten
      · exact Option.some.inj hsentinel
      · rw [hwritten] at hnot
        cases hnot
    · exact (not_inWindow_of_ended hended q hwin).elim
  · intro a s' q e detail hok hstep hq' hmoved
    have he := effect_of_step hstep
    have hco := coherent_of_reachable hs.reachable
    rcases he.request hq' with hold | ⟨-, -, hpc⟩ | ⟨pc, hold, hstep'⟩
    · exact absurd (hold.trans hq'.symm) hmoved
    · rcases firstPc_eq e with h | h | h <;> cases hpc.trans h
    · generalize hpc' : RequestPc.done (.createStartFailed detail) = pc' at hstep'
      cases hstep' with
      | moved hm =>
        cases hm with
        | missing hget =>
          cases e <;> cases hpc'
          exact absurd hget (hco.getReport_ne_none hold rfl)
        | dropped hpc =>
          cases e <;> cases hpc'
          rcases he.status _ with hsame | ⟨p, e, row, raises, ha, -⟩ | ⟨loaded, status, hw, -⟩
          · rw [hsame]
            simpa [settles, hold, startWindow_of_failedStart hpc] using hok
          · cases ha
          · cases hw
        | _ => cases hpc'
      | inserted raises | reset now raises => cases raises <;> cases hpc'
      | started => cases e <;> cases hpc'
      | @notStarted _ _ _ held => cases held <;> cases hpc'
      | startFailed now =>
        have hcommit := (he.of_commitStartFailed hold).2
        cases e <;> cases hpc'
        exact hco.status_commitStartFailed hold hcommit (by simpa [settles, hold] using hok)

end

/-- A `POST /reports` whose start is rejected, and which gets to write the sentinel. -/
def rejectedStart : List Action :=
  [.arrive (.create Sample.payload none), .insert 0 "r" 1, .commitInsert 0 false,
    .start 0 (.rejected "down"), .loadStartFailed 0, .commitStartFailed 0 2]

theorem no_stranded_report_rejectedStart : ∃ (_ : UnicodeData) (s : System),
    machine.Along (fun s a => s.settles a = true) s ∧
    ∃ status, s.status "r" = some status ∧ status ≠ ReportStatus.queued.value ∧
      status = ReportStatus.workflowStartFailed.value := by
  let _ := asciiUnicode
  have hrun : ((machine.runIf (fun s a => s.settles a = true) empty rejectedStart).any fun s =>
      (s.requests.all fun x => x.pc.isEnded) && (s.status "r").isSome &&
        !s.acceptedSinceQueued "r" && !s.writtenSinceQueued "r") = true := by decide +kernel
  obtain ⟨s, hs, hp⟩ := Machine.Along.exists_of_runIf rfl hrun
  simp only [Bool.and_eq_true, List.all_eq_true, Bool.not_eq_true'] at hp
  obtain ⟨⟨⟨hended, hsome⟩, hnot⟩, hnotWritten⟩ := hp
  obtain ⟨status, hr⟩ := Option.isSome_iff_exists.mp hsome
  have h := (no_stranded_report hs).1 hended "r" status hr
  refine ⟨_, s, hs, status, hr, ?_, h.2 hnot hnotWritten⟩
  intro hq
  rw [h.1 hq] at hnot
  cases hnot

/-- A `POST /reports` that ends between its commit and its start call. -/
def stopBeforeStart : List Action :=
  [.arrive (.create Sample.payload none), .insert 0 "r" 1, .commitInsert 0 false, .stop 0]

/-- A report can be stranded: no request is in flight, its status is queued, and no start was
ever called. -/
theorem stranded_report : ¬ ∀ (_ : UnicodeData) (s : System), machine.Reachable s →
    (∀ x ∈ s.requests, x.pc.isEnded = true) →
    ∀ r, s.status r = some ReportStatus.queued.value → s.acceptedSinceQueued r = true := by
  intro h
  let _ := asciiUnicode
  have hrun : ((machine.run empty stopBeforeStart).any fun s =>
      (s.requests.all fun x => x.pc.isEnded) &&
        s.status "r" = some ReportStatus.queued.value && !s.acceptedSinceQueued "r") = true := by
    decide +kernel
  obtain ⟨s, hs, hp⟩ := Machine.Along.exists_of_runIf rfl hrun
  simp only [Bool.and_eq_true, decide_eq_true_eq, List.all_eq_true, Bool.not_eq_true'] at hp
  obtain ⟨⟨hended, hqueued⟩, hnot⟩ := hp
  rw [h _ s hs hended "r" hqueued] at hnot
  cases hnot

/-- Two starts are rejected. The `POST /reports` selects the row when the other request has
written the sentinel, and commits it after a third request has reset the report and ended. -/
def lostSentinel : List Action :=
  [.arrive (.create Sample.payload none), .insert 0 "r" 1, .commitInsert 0 false,
    .start 0 (.rejected "down"), .arrive (.reprocess "r"), .loadForReprocess 1,
    .commitReset 1 2 false, .start 1 (.rejected "down"), .commitStartFailed 1 3,
    .loadStartFailed 0, .arrive (.reprocess "r"), .loadForReprocess 2, .commitReset 2 4 false,
    .stop 2]

/-- No step of it leaves the report unaccounted for, until the last write is lost. -/
example : let _ := asciiUnicode
    ((machine.runIf (fun s a => s.settles a = true) empty lostSentinel).any fun s =>
      (machine.step s (.commitStartFailed 0 5)).any fun s' =>
        (s'.requests.all fun x => x.pc.isEnded) && !s'.acceptedSinceQueued "r" &&
          s'.status "r" = some ReportStatus.queued.value) = true := by
  decide +kernel

/-! ## What the sentinel means -/

/-- A request is about to write the sentinel of the report. -/
def startFailing (s : System) (r : String) : Bool :=
  s.requests.any fun x => x.pc.failedStart.any fun failed => failed.1 = r

/-- A start of the report is answered as the server took it; it is accepted only while the
sentinel is neither stored nor about to be, and fails only while none has been accepted since
the report was set to queued. -/
def startsInTurn (r : String) (s : System) : Action → Bool
  | .start q outcome => match s.requests[q]? with
    | some ⟨_, .start reportId _⟩ => reportId ≠ r || match outcome with
      | .accepted =>
        s.status r ≠ some ReportStatus.workflowStartFailed.value && !s.startFailing r
      | .rejected _ => !s.acceptedSinceQueued r
      | .acceptedButRaised _ => false
    | _ => true
  | _ => true

theorem startFailing_iff : s.startFailing r = true ↔
    ∃ (q : ℕ) (e : Endpoint) (pc : RequestPc) (cause : String),
      s.requests[q]? = some ⟨e, pc⟩ ∧ pc.failedStart = some (r, cause) := by
  simp only [startFailing, List.any_eq_true]
  constructor
  · rintro ⟨⟨e, pc⟩, hx, hpc⟩
    obtain ⟨q, hq⟩ := List.getElem?_of_mem hx
    obtain ⟨⟨reportId, cause⟩, hfailed, hid⟩ := (Option.any_eq_true _ _).mp hpc
    obtain rfl : reportId = r := of_decide_eq_true hid
    exact ⟨q, e, pc, cause, hq, hfailed⟩
  · rintro ⟨q, e, pc, cause, hq, hpc⟩
    exact ⟨_, List.mem_of_getElem? hq, by simp [hpc]⟩

theorem startsInTurn_start {q : ℕ} {e : Endpoint} {held : Option Report} {outcome : StartOutcome}
    (h : s.startsInTurn r (.start q outcome) = true)
    (hq : s.requests[q]? = some ⟨e, .start r held⟩) :
    (outcome = .accepted ∧ s.status r ≠ some ReportStatus.workflowStartFailed.value ∧
      s.startFailing r = false) ∨
    ∃ cause, outcome = .rejected cause ∧ s.acceptedSinceQueued r = false := by
  simp only [startsInTurn, hq, ne_eq, not_true_eq_false, decide_false, Bool.false_or] at h
  cases outcome with
  | accepted => exact .inl ⟨rfl, by simpa using h⟩
  | rejected cause => exact .inr ⟨cause, rfl, by simpa using h⟩
  | acceptedButRaised => cases h

/-- Neither the sentinel nor a request that will write it comes after an accepted start. -/
def InTurn (r : String) (s : System) : Prop :=
  s.acceptedSinceQueued r = true →
    s.status r ≠ some ReportStatus.workflowStartFailed.value ∧ s.startFailing r = false

section
variable [UnicodeData]

/-- A start is known to have been accepted before the step, or is accepted by it. -/
theorem Effect.acceptedSinceQueued (he : Effect s a s') (h : s'.acceptedSinceQueued r = true) :
    s.acceptedSinceQueued r = true ∨ ∃ q e held outcome, a = .start q outcome ∧
      s.requests[q]? = some ⟨e, .start r held⟩ ∧ outcome.reachesServer = true := by
  rcases he.history with hsame | ⟨ev, hlogged, hcons⟩
  · rw [System.acceptedSinceQueued, System.sinceQueued, hsame] at h
    exact .inl h
  · rw [acceptedSinceQueued_cons hcons, Bool.and_eq_true, Bool.or_eq_true] at h
    rcases h.2 with hev | hold
    · cases hlogged with
      | started hq =>
        simp only [Event.isAcceptedStart, Bool.and_eq_true, decide_eq_true_eq] at hev
        exact .inr ⟨_, _, _, _, rfl, hev.1 ▸ hq, hev.2⟩
      | inserted | reset | startFailed | marked => cases hev
    · exact .inl hold

omit [UnicodeData] in
/-- No activity writes the sentinel. -/
theorem startFailing_of_statusWrite {loaded : Report}
    (hw : s.statusWrite a = some (loaded, .workflowStartFailed)) :
    s.startFailing loaded.id = true := by
  rcases statusWrite_eq_some hw with ⟨-, -, -, -, -, -, hst⟩ | ⟨q, e, now, cause, -, hq, -⟩ |
    ⟨i, x, input, r, -, -, -, hwrite⟩
  · cases hst
  · exact startFailing_iff.mpr ⟨q, e, _, cause, hq, rfl⟩
  · exact absurd rfl (Activity.ne_of_statusWrite hwrite).2

/-- The sentinel comes from a request that was about to write it. -/
theorem Effect.status_sentinel (he : Effect s a s') (hco : Coherent s)
    (h : s'.status r = some ReportStatus.workflowStartFailed.value) :
    s.status r = some ReportStatus.workflowStartFailed.value ∨ s.startFailing r = true := by
  rcases hco.status_new he h (by decide) with hold | ⟨loaded, hw, rfl⟩
  · exact .inl hold
  · exact .inr (startFailing_of_statusWrite hw)

/-- A request comes to write the sentinel by a start that fails. -/
theorem Effect.startFailing (he : Effect s a s') (hco : Coherent s)
    (h : s'.startFailing r = true) :
    s.startFailing r = true ∨ ∃ q e held outcome, a = .start q outcome ∧
      s.requests[q]? = some ⟨e, .start r held⟩ ∧ outcome ≠ .accepted := by
  obtain ⟨q, e, pc', cause, hq', hpc'⟩ := startFailing_iff.mp h
  rcases he.request hq' with hold | ⟨-, -, rfl⟩ | ⟨pc, hold, hstep⟩
  · exact .inl (startFailing_iff.mpr ⟨q, e, pc', cause, hold, hpc'⟩)
  · rcases firstPc_eq e with h | h | h <;> rw [h] at hpc' <;> cases hpc'
  · rcases hco.to_window hold hstep (startWindow_of_failedStart hpc') with
      ⟨row, -, -, -, rfl⟩ | ⟨loaded, now, -, -, -, rfl⟩ | ⟨held, outcome, rfl, hne, rfl⟩ |
      ⟨cause', -, rfl⟩
    · cases hpc'
    · cases hpc'
    · exact .inr ⟨q, e, held, outcome, rfl, hold, hne⟩
    · exact .inl (startFailing_iff.mpr ⟨q, e, _, cause', hold, rfl⟩)

/-- **One step.** -/
theorem InTurn.step (h : InTurn r s) (hco : Coherent s) (he : Effect s a s')
    (hok : s.startsInTurn r a = true) : InTurn r s' := by
  intro hacc'
  -- Either way the sentinel was not in sight before the step.
  obtain ⟨hstatus, hfailing⟩ : s.status r ≠ some ReportStatus.workflowStartFailed.value ∧
      s.startFailing r = false := by
    rcases he.acceptedSinceQueued hacc' with hacc | ⟨q, e, held, outcome, rfl, hq, hreaches⟩
    · exact h hacc
    · rcases startsInTurn_start hok hq with ⟨-, hclear⟩ | ⟨cause, rfl, -⟩
      · exact hclear
      · cases hreaches
  constructor
  · intro hsentinel
    rcases he.status_sentinel hco hsentinel with hold | hwrites
    · exact hstatus hold
    · rw [hfailing] at hwrites
      cases hwrites
  · by_contra hfails
    rcases he.startFailing hco (Bool.eq_true_of_not_eq_false hfails) with
      hold | ⟨q, e, held, outcome, rfl, hq, hne⟩
    · rw [hfailing] at hold
      cases hold
    · rcases startsInTurn_start hok hq with ⟨rfl, -⟩ | ⟨cause, rfl, hnot⟩
      · exact hne rfl
      · -- A rejected start adds no accepted one.
        rcases he.acceptedSinceQueued hacc' with hacc | ⟨p, -, -, outcome, hstart, -, hreaches⟩
        · rw [hnot] at hacc
          cases hacc
        · cases hstart
          cases hreaches

theorem inTurn_of_along (h : machine.Along (fun s a => s.startsInTurn r a = true) s) :
    InTurn r s := by
  refine h.invariant ?_ fun ht ih hok hstep =>
    ih.step (coherent_of_reachable ht.reachable) (effect_of_step hstep) hok
  rintro t rfl hacc
  cases hacc

/-- **What the sentinel means, when the starts of the report do not get in each other's way.**
In a run whose starts of report `r` are all in turn: while the stored status is the sentinel no
start has been accepted since the report was last set to queued; nor has one when the sentinel
is about to be written, so it is not written over the status left by such a run. -/
theorem sentinel_means_not_started
    (hs : machine.Along (fun s a => s.startsInTurn r a = true) s) :
    (s.status r = some ReportStatus.workflowStartFailed.value →
      s.acceptedSinceQueued r = false) ∧
    ∀ (a : Action) (loaded : Report), s.statusWrite a = some (loaded, .workflowStartFailed) →
      loaded.id = r → s.acceptedSinceQueued r = false := by
  have h := inTurn_of_along hs
  constructor
  · intro hsentinel
    by_contra hacc
    exact (h (Bool.eq_true_of_not_eq_false hacc)).1 hsentinel
  · intro a loaded hw hid
    by_contra hacc
    have hfailing := (h (Bool.eq_true_of_not_eq_false hacc)).2
    rw [← hid, startFailing_of_statusWrite hw] at hfailing
    cases hfailing

end

/-- After a rejected start the sentinel is stored, and it is true. -/
theorem sentinel_means_not_started_rejectedStart : ∃ (_ : UnicodeData) (s : System),
    machine.Along (fun s a => s.startsInTurn "r" a = true) s ∧
    s.status "r" = some ReportStatus.workflowStartFailed.value ∧
    s.acceptedSinceQueued "r" = false := by
  let _ := asciiUnicode
  have hrun : ((machine.runIf (fun s a => s.startsInTurn "r" a = true) empty rejectedStart).any
      fun s => s.status "r" = some ReportStatus.workflowStartFailed.value) = true := by
    decide +kernel
  obtain ⟨s, hs, hp⟩ := Machine.Along.exists_of_runIf rfl hrun
  simp only [decide_eq_true_eq] at hp
  exact ⟨_, s, hs, hp, (sentinel_means_not_started hs).1 hp⟩

/-- A `POST /reports` whose start is accepted, while the client sees an exception. -/
def raisingStart : List Action :=
  [.arrive (.create Sample.payload none), .insert 0 "r" 1, .commitInsert 0 false,
    .start 0 (.acceptedButRaised "timeout"), .loadStartFailed 0, .commitStartFailed 0 2]

/-- The sentinel can stand while a run of the report is under way. -/
theorem sentinel_after_start : ¬ ∀ (_ : UnicodeData) (s : System) (r : String),
    machine.Reachable s → s.status r = some ReportStatus.workflowStartFailed.value →
    s.acceptedSinceQueued r = false := by
  intro h
  let _ := asciiUnicode
  have hrun : ((machine.run empty raisingStart).any fun s =>
      s.status "r" = some ReportStatus.workflowStartFailed.value &&
        s.acceptedSinceQueued "r") = true := by decide +kernel
  obtain ⟨s, hs, hp⟩ := Machine.Along.exists_of_runIf rfl hrun
  simp only [Bool.and_eq_true, decide_eq_true_eq] at hp
  rw [h _ s "r" hs hp.1] at hp
  cases hp.2

end System

end ReportTriage

import ReportTriage.Startup

/-!
# Races of starts

Processes that start together look for the same tables and the same stream, and each creates what
it has not found. Without a fault every answer but three leads on: the stream may be added twice,
the tables may not, a durable consumer has one subscriber, and there are streams that the server
refuses to update.

## Main definitions

* `Deployment.Faultless` — attempts to connect may fail, as long as others follow.
* `Deployment.Steady`, `Deployment.Unhurt` — the steps of a start, and what they rely on.
* `Deployment.Collides`, `Deployment.Refuses`, `Deployment.crashes_iff` — the ways to crash.
* `Deployment.Updates`, `Deployment.exists_serving` — when a process can be started.
-/

namespace ReportTriage

namespace Deployment
variable {settings : Settings} {d d' : Deployment} {a : Action} {p : ℕ} {x y : Process}

/-! ## Starts without a fault -/

/-- The servers answer, apart from attempts to connect that come too early and have others after
them; nothing is killed, and the stream is kept. -/
def Faultless (d : Deployment) : Action → Prop
  | .fault p _ err => ∃ x, d.processes[p]? = some x ∧ ∃ attempt < maxAttempts,
    x.await = .natsConnect attempt ∧ err.kind = .unreachable ∨
      x.await = .temporalConnect attempt ∧ err.kind = .runtimeError
  | .kill _ | .loseStream => False
  | _ => True

/-- What a step without a fault does to a process that is there before it. -/
inductive Steady (settings : Settings) (d d' : Deployment) (p : ℕ) (x : Process) :
    Action → Process → Prop
  | idle {a : Action} (ha : a ≠ .answer p) : Steady settings d d' p x a x
  | returned {y : Process} (hrespond : d.respond settings x.await = some (.ok ()))
      (hreturned : x.returned settings (!d.tables) = some y)
      (hstream : d'.stream = (d.executed settings x.await).stream) :
      Steady settings d d' p x (.answer p) y
  | refused {err : StartupError} (hrespond : d.respond settings x.await = some (.error err)) :
      Steady settings d d' p x (.answer p) (x.raised err)
  | natsRefused {attempt : ℕ} {executed : Bool} {err : StartupError}
      (hattempt : attempt < maxAttempts) (hawait : x.await = .natsConnect attempt) :
      Steady settings d d' p x (.fault p executed err) (x.moveTo (.natsSleep attempt err))
  | temporalRefused {attempt : ℕ} {executed : Bool} {err : StartupError}
      (hattempt : attempt < maxAttempts) (hawait : x.await = .temporalConnect attempt) :
      Steady settings d d' p x (.fault p executed err) (x.moveTo (.temporalSleep attempt err))
  | stopped (hserving : x.await = .serving) : Steady settings d d' p x (.signal p) x.stopped

/-- A step that sets process `q` does nothing to another one. -/
theorem Steady.of_setProcess {q : ℕ} {e : Deployment} {z : Process}
    (hx : d.processes[p]? = some x) (hprocesses : e.processes = d.processes)
    (hy : (e.setProcess q z).processes[p]? = some y) (hne : q ≠ p → a ≠ .answer p)
    (hself : q = p → Steady settings d d' p x a z) : Steady settings d d' p x a y := by
  simp only [setProcess, hprocesses] at hy
  rcases Slots.set_cases hy with ⟨rfl, rfl⟩ | ⟨hpq, hold⟩
  · exact hself rfl
  · rw [hx] at hold
    cases hold
    exact .idle (hne (Ne.symm hpq))

theorem steady_of_step (hok : d.Faultless a) (hs : d.step settings a = some d')
    (hx : d.processes[p]? = some x) (hy : d'.processes[p]? = some y) :
    Steady settings d d' p x a y := by
  cases a with
  | launch kind =>
    cases hs
    rw [Slots.append_of_some hx] at hy
    cases hy
    exact .idle (by simp)
  | answer q =>
    obtain ⟨z, hz, hs⟩ := Option.bind_eq_some_iff.mp hs
    have hne : q ≠ p → Action.answer q ≠ .answer p := fun hne heq => hne (Action.answer.inj heq)
    unfold answer at hs
    split at hs
    · cases hs
    · rename_i hrespond
      obtain ⟨w, hw, rfl⟩ := Option.map_eq_some_iff.mp hs
      refine .of_setProcess hx (executed_processes ..) hy hne fun heq => ?_
      subst heq
      rw [hx] at hz
      cases hz
      exact .returned hrespond hw rfl
    · rename_i err hrespond
      cases hs
      refine .of_setProcess hx rfl hy hne fun heq => ?_
      subst heq
      rw [hx] at hz
      cases hz
      exact .refused hrespond
  | fault q executed err =>
    obtain ⟨z, hz, hs⟩ := Option.bind_eq_some_iff.mp hs
    obtain ⟨w, hw, attempt, hattempt, hcaught⟩ := hok
    rw [hz] at hw
    cases hw
    have hself : q = p → Steady settings d d' p x (.fault q executed err) (z.raised err) := by
      intro heq
      subst heq
      rw [hx] at hz
      cases hz
      rcases hcaught with ⟨hawait, hkind⟩ | ⟨hawait, hkind⟩
      · simp only [Process.raised, hawait, hkind, if_true]
        exact .natsRefused hattempt hawait
      · simp only [Process.raised, hawait, hkind, if_true]
        exact .temporalRefused hattempt hawait
    unfold fault at hs
    split at hs
    · cases hs
    · split at hs
      · cases hs
      · split at hs <;> cases hs
        · exact .of_setProcess hx (executed_processes ..) hy (by simp) hself
        · exact .of_setProcess hx rfl hy (by simp) hself
  | signal q =>
    obtain ⟨z, hz, hs⟩ := Option.bind_eq_some_iff.mp hs
    split at hs
    · rename_i hserving
      cases hs
      refine .of_setProcess hx rfl hy (by simp) fun heq => ?_
      subst heq
      rw [hx] at hz
      cases hz
      exact .stopped hserving
    · cases hs
  | kill | loseStream => exact hok.elim
  | request q =>
    obtain ⟨z, -, hs⟩ := Option.bind_eq_some_iff.mp hs
    split at hs <;> cases hs
    rw [hx] at hy
    cases hy
    exact .idle (by simp)
  | publish q subject =>
    obtain ⟨z, -, hs⟩ := Option.bind_eq_some_iff.mp hs
    have hsame : d'.processes = d.processes := by
      split at hs
      · split at hs <;> cases hs
        · exact publish_processes ..
        · rfl
      · cases hs
    rw [hsame, hx] at hy
    cases hy
    exact .idle (by simp)

/-- Where a process of the next state comes from, without a fault. -/
theorem steady_or_launched (hok : d.Faultless a) (hs : d.step settings a = some d')
    (hy : d'.processes[p]? = some y) :
    (∃ x, d.processes[p]? = some x ∧ Steady settings d d' p x a y) ∨ ∃ kind, y = .launch kind := by
  cases hx : d.processes[p]? with
  | some x => exact .inl ⟨x, rfl, steady_of_step hok hs hx hy⟩
  | none =>
    rcases (effect_of_step hs).process hy with hold | hlaunched | ⟨x, hold, -⟩
    · rw [hx] at hold
      cases hold
    · exact .inr hlaunched
    · rw [hx] at hold
      cases hold

/-- What a start without a fault relies on: that another attempt follows each one that has failed,
that the subjects are those of the stream, and that the stream stays. -/
structure Unhurt (d : Deployment) (x : Process) : Prop where
  natsSleep : ∀ attempt lastErr, x.await = .natsSleep attempt lastErr → attempt < maxAttempts
  temporalSleep : ∀ attempt lastErr, x.await = .temporalSleep attempt lastErr →
    attempt < maxAttempts
  subscribe : ∀ subject rest, x.await = .subscribe subject rest →
    subject ∈ streamSubjects ∧ ∀ next ∈ rest, next ∈ streamSubjects
  stream : x.kind ≠ .api → 2 < x.await.stage → d.stream.isSome = true

theorem Unhurt.mono (h : Unhurt d x) (hstream : d.stream.isSome = true → d'.stream.isSome = true) :
    Unhurt d' x :=
  ⟨h.natsSleep, h.temporalSleep, h.subscribe, fun hkind hstage => hstream (h.stream hkind hstage)⟩

theorem unhurt_launch (d : Deployment) (kind : ProcessKind) : Unhurt d (.launch kind) := by
  cases kind <;> constructor <;> simp [Process.launch, ProcessKind.start, Await.stage]

theorem unhurt_crash (d : Deployment) (x : Process) (err : StartupError) :
    Unhurt d (x.crash err) := by
  constructor <;> simp [Process.crash, Await.stage]

/-- The awaits other than those `Unhurt` singles out. -/
def isPlain : Await → Bool
  | .natsSleep _ _ | .temporalSleep _ _ | .subscribe _ _ => false
  | _ => true

theorem unhurt_of_isPlain (hplain : isPlain x.await = true)
    (hstream : x.kind ≠ .api → 2 < x.await.stage → d.stream.isSome = true) : Unhurt d x where
  natsSleep attempt lastErr h := by
    rw [h] at hplain
    cases hplain
  temporalSleep attempt lastErr h := by
    rw [h] at hplain
    cases hplain
  subscribe subject rest h := by
    rw [h] at hplain
    cases hplain
  stream := hstream

/-- Before a stream is asked for there is nothing to rely on. -/
theorem unhurt_of_early (hplain : isPlain x.await = true) (hstage : x.await.stage ≤ 2) :
    Unhurt d x :=
  unhurt_of_isPlain hplain fun _ hlt => absurd hlt (by omega)

/-- An await that returns leaves its process unhurt: where the stream is asked for next, it has
just been updated or added. -/
theorem Unhurt.returned (h : Unhurt d x) (hkept : d.stream.isSome = true → d'.stream.isSome = true)
    (hreturned : x.returned settings (!d.tables) = some y)
    (hstream : d'.stream = (d.executed settings x.await).stream) : Unhurt d' y := by
  have h' := h.mono hkept
  unfold Process.returned at hreturned
  cases hawait : x.await with
  | checkTables | streamInfo =>
    rw [hawait] at hreturned
    cases hreturned
    exact unhurt_of_early rfl (by simp [Process.moveTo, Await.stage])
  | createTables missing =>
    rw [hawait] at hreturned
    obtain ⟨await, hnext, rfl⟩ := Option.map_eq_some_iff.mp hreturned
    cases hkind : x.kind <;> rw [hkind] at hnext <;> cases hnext
    · exact unhurt_of_isPlain rfl fun hnot => absurd hkind hnot
    · exact unhurt_of_early rfl (by simp [Process.moveTo, Await.stage])
  | natsConnect attempt =>
    rw [hawait] at hreturned
    cases hreturned
    constructor <;> simp [Await.stage]
  | natsSleep attempt lastErr =>
    rw [hawait] at hreturned
    dsimp only at hreturned
    rw [if_pos (h.natsSleep attempt lastErr hawait)] at hreturned
    cases hreturned
    exact unhurt_of_early rfl (by simp [Process.moveTo, Await.stage])
  | updateStream | addStream =>
    rw [hawait] at hreturned hstream
    obtain ⟨await, hnext, rfl⟩ := Option.map_eq_some_iff.mp hreturned
    have hsome : d'.stream.isSome = true := by
      rw [hstream]
      rfl
    cases hkind : x.kind <;> rw [hkind] at hnext <;> cases hnext
    · exact unhurt_of_isPlain rfl fun _ _ => hsome
    · refine ⟨by rintro _ _ ⟨⟩, by rintro _ _ ⟨⟩, ?_, fun _ _ => hsome⟩
      rintro _ _ ⟨⟩
      simp [streamSubjects]
  | temporalConnect attempt =>
    rw [hawait] at hreturned
    obtain ⟨await, hnext, rfl⟩ := Option.map_eq_some_iff.mp hreturned
    obtain rfl : await = .serving := by
      cases hkind : x.kind <;> rw [hkind] at hnext <;> cases hnext <;> rfl
    exact unhurt_of_isPlain rfl fun hkind _ => h'.stream hkind (by simp [hawait, Await.stage])
  | temporalSleep attempt lastErr =>
    rw [hawait] at hreturned
    dsimp only at hreturned
    rw [if_pos (h.temporalSleep attempt lastErr hawait)] at hreturned
    cases hreturned
    exact unhurt_of_isPlain rfl fun hkind _ => h'.stream hkind (by simp [hawait, Await.stage])
  | subscribe subject rest =>
    rw [hawait] at hreturned
    have hstage : 2 < x.await.stage := by simp [hawait, Await.stage]
    cases rest with
    | nil =>
      cases hreturned
      exact unhurt_of_isPlain rfl fun hkind _ => h'.stream hkind hstage
    | cons next rest =>
      cases hreturned
      refine ⟨by rintro _ _ ⟨⟩, by rintro _ _ ⟨⟩, ?_, fun hkind _ => h'.stream hkind hstage⟩
      rintro _ _ ⟨⟩
      exact List.forall_mem_cons.mp (h.subscribe subject (next :: rest) hawait).2
  | shutdown =>
    rw [hawait] at hreturned
    cases hreturned
    exact unhurt_of_isPlain rfl fun hkind _ => h'.stream hkind (by simp [hawait, Await.stage])
  | drain =>
    rw [hawait] at hreturned
    cases hreturned
    constructor <;> simp [Await.stage]
  | serving | exited | crashed =>
    rw [hawait] at hreturned
    cases hreturned

theorem Unhurt.steady (h : Unhurt d x) (hkept : d.stream.isSome = true → d'.stream.isSome = true)
    (hsteady : Steady settings d d' p x a y) : Unhurt d' y := by
  have h' := h.mono hkept
  cases hsteady with
  | idle ha => exact h'
  | returned hrespond hreturned hstream => exact h.returned hkept hreturned hstream
  | @refused err hrespond =>
    unfold Process.raised
    split
    · rename_i attempt hawait
      rw [hawait] at hrespond
      cases hrespond
    · split
      · exact unhurt_of_early rfl (by simp [Process.moveTo, Await.stage])
      · exact unhurt_crash ..
    · split
      · exact unhurt_of_early rfl (by simp [Process.moveTo, Await.stage])
      · exact unhurt_crash ..
    · rename_i attempt hawait
      rw [hawait] at hrespond
      cases hrespond
    · exact unhurt_crash ..
  | @natsRefused attempt executed err hattempt hawait =>
    refine ⟨?_, by rintro _ _ ⟨⟩, by rintro _ _ ⟨⟩, ?_⟩
    · rintro _ _ ⟨⟩
      exact hattempt
    · exact fun _ hlt => absurd hlt (by simp [Process.moveTo, Await.stage])
  | @temporalRefused attempt executed err hattempt hawait =>
    refine ⟨by rintro _ _ ⟨⟩, ?_, by rintro _ _ ⟨⟩, ?_⟩
    · rintro _ _ ⟨⟩
      exact hattempt
    · exact fun hkind _ => h'.stream hkind (by simp [hawait, Await.stage])
  | stopped hserving =>
    unfold Process.stopped
    split
    · constructor <;> simp [Await.stage]
    · exact unhurt_of_isPlain rfl fun hkind _ => h'.stream hkind (by simp [hserving, Await.stage])
    · exact unhurt_of_isPlain rfl fun hkind _ => h'.stream hkind (by simp [hserving, Await.stage])

theorem Effect.stream_kept (he : Effect settings d a d') (hok : d.Faultless a) :
    d.stream.isSome = true → d'.stream.isSome = true := by
  intro hsome
  cases he with
  | launched | requested => exact hsome
  | @moved a p x y e hx he hmoves =>
    rcases he with rfl | rfl
    · exact hsome
    · simp only [setProcess]
      unfold executed
      split
      · split <;> exact hsome
      · rfl
      · rfl
      · exact hsome
  | lost => exact hok.elim
  | @published p subject x hx hruns hworkflows d' hpublish =>
    rcases hpublish with rfl | rfl
    · exact hsome
    · rwa [publish_stream]

theorem unhurt_of_along (h : (machine settings).Along Faultless d) :
    ∀ (p : ℕ) (x : Process), d.processes[p]? = some x → Unhurt d x := by
  refine h.invariant (I := fun d => ∀ (p : ℕ) (x : Process), d.processes[p]? = some x → Unhurt d x)
    (fun hfresh => by simp [hfresh.processes]) fun {d a d'} _ ih hok hs p y hy => ?_
  have hkept := (effect_of_step hs).stream_kept hok
  rcases steady_or_launched hok hs hy with ⟨x, hx, hsteady⟩ | ⟨kind, rfl⟩
  · exact (ih p x hx).steady hkept hsteady
  · exact unhurt_launch ..

/-! ## The ways to crash -/

/-- The tables a process creates have been created since it looked for them, or the durable
consumer it subscribes with has a subscriber. -/
def Collides (d : Deployment) (x : Process) : Prop :=
  (x.await = .createTables true ∧ d.tables = true) ∨
    ∃ subject rest, x.await = .subscribe subject rest ∧ d.bound subject = true

/-- The server refuses what the await asks for: another stream has the subjects, or the update
would change a setting which has to stay. -/
def Refuses (d : Deployment) : Await → Prop
  | .updateStream => ∃ stream, d.stream = some stream ∧
      (d.taken = true ∨ stream.updatable = false)
  | .addStream => d.taken = true
  | _ => False

/-- In a start without a fault an answer is an error if there is a collision, if the server
refuses, or if it says that there is no stream yet. -/
theorem collides_or_refuses_or_notFound (hready : Ready settings d x) (hunhurt : Unhurt d x)
    {err : StartupError} (hrespond : d.respond settings x.await = some (.error err)) :
    (d.Collides x ∨ d.Refuses x.await) ∨
      (x.await = .streamInfo ∨ x.await = .updateStream) ∧ err.kind = .notFound := by
  cases hawait : x.await with
  | createTables missing =>
    rw [hawait, respond] at hrespond
    split at hrespond
    · rename_i hboth
      rw [Bool.and_eq_true] at hboth
      obtain ⟨rfl, htables⟩ := hboth
      exact .inl (.inl (.inl ⟨hawait, htables⟩))
    · cases hrespond
  | streamInfo =>
    rw [hawait, respond] at hrespond
    split at hrespond <;> cases hrespond
    exact .inr ⟨.inl rfl, rfl⟩
  | updateStream =>
    rw [hawait, respond] at hrespond
    split at hrespond
    · cases hrespond
      exact .inr ⟨.inr rfl, rfl⟩
    · rename_i stream hstream
      refine .inl (.inr ⟨stream, hstream, ?_⟩)
      split at hrespond
      · rename_i htaken
        exact .inl htaken
      · split at hrespond
        · cases hrespond
        · rename_i hfixed
          exact .inr (Bool.of_not_eq_true hfixed)
  | addStream =>
    rw [hawait, respond] at hrespond
    split at hrespond
    · rename_i htaken
      exact .inl (.inr htaken)
    · split at hrespond
      · cases hrespond
      · rename_i stream hstream
        rw [if_pos (hready.addStream hawait stream hstream)] at hrespond
        cases hrespond
  | subscribe subject rest =>
    have hstage : x.await.stage = 4 := by simp [hawait, Await.stage]
    have hkind : x.kind ≠ .api := by simp [hready.consumer hstage]
    obtain ⟨stream, hstream⟩ :=
      Option.isSome_iff_exists.mp (hunhurt.stream hkind (by omega))
    obtain rfl := hready.established 2 (by omega) hkind stream hstream
    have hsubject : (ensuredStream settings).subjects.contains subject = true :=
      List.contains_iff_mem.mpr (hunhurt.subscribe subject rest hawait).1
    rw [hawait, respond, hstream] at hrespond
    dsimp only at hrespond
    rw [if_pos hsubject] at hrespond
    split at hrespond
    · rename_i hbound
      exact .inl (.inl (.inr ⟨subject, rest, hawait, hbound⟩))
    · cases hrespond
  | checkTables | natsConnect | natsSleep | temporalConnect | temporalSleep | shutdown | drain
  | serving | exited | crashed =>
    rw [hawait] at hrespond
    cases hrespond

/-- Where there is a collision the answer is an error that nothing catches. -/
theorem Collides.crashes (settings : Settings) (h : d.Collides x) :
    ∃ err, d.respond settings x.await = some (.error err) ∧ x.raised err = x.crash err := by
  rcases h with ⟨hawait, htables⟩ | ⟨subject, rest, hawait, hbound⟩
  · refine ⟨⟨.other, "relation already exists"⟩, ?_, ?_⟩
    · rw [hawait, respond, htables]
      rfl
    · rw [Process.raised, hawait]
  · have herror : ∃ err, d.respond settings (.subscribe subject rest) = some (.error err) := by
      rw [respond]
      split
      · exact ⟨_, rfl⟩
      · rw [hbound]
        split <;> exact ⟨_, rfl⟩
    obtain ⟨err, herr⟩ := herror
    refine ⟨err, hawait ▸ herr, ?_⟩
    rw [Process.raised, hawait]

/-- So is the answer where the server refuses. -/
theorem Refuses.crashes (settings : Settings) (h : d.Refuses x.await) :
    ∃ err, d.respond settings x.await = some (.error err) ∧ x.raised err = x.crash err := by
  cases hawait : x.await with
  | updateStream =>
    rw [hawait] at h
    obtain ⟨stream, hstream, hrefused⟩ := h
    have herror : ∃ text, d.respond settings .updateStream = some (.error ⟨.other, text⟩) := by
      rw [respond, hstream]
      dsimp only
      rcases hrefused with htaken | hfixed
      · exact ⟨_, if_pos htaken⟩
      · rw [hfixed]
        split <;> exact ⟨_, rfl⟩
    obtain ⟨text, herr⟩ := herror
    refine ⟨⟨.other, text⟩, herr, ?_⟩
    rw [Process.raised, hawait]
    rfl
  | addStream =>
    rw [hawait] at h
    refine ⟨⟨.other, "subjects overlap with an existing stream"⟩, ?_, ?_⟩
    · rw [respond]
      exact if_pos h
    · rw [Process.raised, hawait]
  | checkTables | createTables | natsConnect | natsSleep | streamInfo | temporalConnect
  | temporalSleep | subscribe | serving | shutdown | drain | exited | crashed =>
    rw [hawait] at h
    exact h.elim

/-- An await that returns does not end in an exception, since there is another attempt. -/
theorem Unhurt.await_ne_crashed (h : Unhurt d x) {missing : Bool}
    (hreturned : x.returned settings missing = some y) (err : StartupError) :
    y.await ≠ .crashed err := by
  unfold Process.returned at hreturned
  cases hawait : x.await with
  | natsSleep attempt lastErr =>
    rw [hawait] at hreturned
    dsimp only at hreturned
    rw [if_pos (h.natsSleep attempt lastErr hawait)] at hreturned
    cases hreturned
    simp [Process.moveTo]
  | temporalSleep attempt lastErr =>
    rw [hawait] at hreturned
    dsimp only at hreturned
    rw [if_pos (h.temporalSleep attempt lastErr hawait)] at hreturned
    cases hreturned
    simp [Process.moveTo]
  | createTables | updateStream | addStream | temporalConnect =>
    rw [hawait] at hreturned
    obtain ⟨await, hnext, rfl⟩ := Option.map_eq_some_iff.mp hreturned
    cases hkind : x.kind <;> rw [hkind] at hnext <;> cases hnext <;> simp [Process.moveTo]
  | subscribe subject rest =>
    rw [hawait] at hreturned
    cases rest <;> cases hreturned <;> simp
  | checkTables | natsConnect | streamInfo | shutdown | drain =>
    rw [hawait] at hreturned
    cases hreturned
    simp [Process.moveTo]
  | serving | exited | crashed =>
    rw [hawait] at hreturned
    cases hreturned

theorem await_stopped (x : Process) (err : StartupError) :
    x.stopped.await ≠ .crashed err := by
  unfold Process.stopped
  split <;> simp [Process.moveTo]

theorem crashes_of_collides_or_refuses (settings : Settings)
    (h : d.Collides x ∨ d.Refuses x.await) :
    ∃ err, d.respond settings x.await = some (.error err) ∧ x.raised err = x.crash err :=
  h.elim (fun hcollides => hcollides.crashes settings) fun hrefuses => hrefuses.crashes settings

/-- Processes are launched and answered. -/
def isCalm : Action → Bool
  | .launch _ | .answer _ => true
  | _ => false

/-- **The ways to crash.** In every run without a fault, with processes of all kinds starting at
any moment and the server holding whatever streams it had, a process crashes exactly if it creates
tables that another one has created since it looked for them, subscribes with a durable consumer
that has a subscriber, or asks for a stream that the server refuses to update or to add. -/
theorem crashes_iff (h : (machine settings).Along Faultless d) (hok : d.Faultless a)
    (hs : d.step settings a = some d') (hx : d.processes[p]? = some x)
    (hy : d'.processes[p]? = some y) (hlive : ∀ err, x.await ≠ .crashed err) :
    (∃ err, y.await = .crashed err) ↔
      a = .answer p ∧ (d.Collides x ∨ d.Refuses x.await) := by
  have hunhurt := unhurt_of_along h p x hx
  have hready := (prepared_of_reachable h.reachable).processes p x hx
  cases steady_of_step hok hs hx hy with
  | idle ha =>
    constructor
    · rintro ⟨err, herr⟩
      exact absurd herr (hlive err)
    · rintro ⟨hanswer, -⟩
      exact absurd hanswer ha
  | returned hrespond hreturned hstream =>
    constructor
    · rintro ⟨err, herr⟩
      exact absurd herr (hunhurt.await_ne_crashed hreturned err)
    · rintro ⟨-, hcrashes⟩
      obtain ⟨err, herr, -⟩ := crashes_of_collides_or_refuses settings hcrashes
      rw [hrespond] at herr
      cases herr
  | @refused err hrespond =>
    constructor
    · rintro ⟨err', herr'⟩
      refine ⟨rfl, (collides_or_refuses_or_notFound hready hunhurt hrespond).resolve_right ?_⟩
      -- That there is no stream is caught, and leads to `add_stream`.
      rintro ⟨hawait | hawait, hkind⟩ <;>
        · simp only [Process.raised, hawait, hkind, if_true] at herr'
          cases herr'
    · rintro ⟨-, hcrashes⟩
      obtain ⟨err', herr', hcrash⟩ := crashes_of_collides_or_refuses settings hcrashes
      rw [hrespond] at herr'
      cases herr'
      exact ⟨err, by rw [hcrash]; rfl⟩
  | natsRefused | temporalRefused => simp [Process.moveTo]
  | stopped hserving =>
    constructor
    · rintro ⟨err, herr⟩
      exact absurd herr (await_stopped x err)
    · simp

/-- The API and the consumer look for the tables before either has created them, and the API
commits first. -/
theorem crashes_iff_bothMissing : ∃ (d d' : Deployment) (x y : Process),
    (machine {}).Along Faultless d ∧ d.step {} (.answer 1) = some d' ∧
      d.processes[1]? = some x ∧ d'.processes[1]? = some y ∧ ∃ err, y.await = .crashed err := by
  have hrun : (((machine {}).runIf (fun _ a => isCalm a = true) ⟨false, none, false, 0, [], []⟩
      [.launch .api, .launch .consumer, .answer 0, .answer 1, .answer 0]).any fun d =>
        (d.processes[1]?).any (fun x => decide (x.await = .createTables true) && d.tables) &&
          (d.step {} (.answer 1)).any fun d' => (d'.processes[1]?).isSome) = true := by
    decide +kernel
  obtain ⟨d, hd, hp⟩ := (Option.any_eq_true _ _).mp hrun
  rw [Bool.and_eq_true, Option.any_eq_true, Option.any_eq_true] at hp
  obtain ⟨⟨x, hx, hp⟩, d', hd', hsome⟩ := hp
  rw [Bool.and_eq_true, decide_eq_true_eq] at hp
  obtain ⟨hawait, htables⟩ := hp
  obtain ⟨y, hy⟩ := Option.isSome_iff_exists.mp hsome
  have hpath : (machine {}).Path Faultless ⟨false, none, false, 0, [], []⟩ d :=
    (Machine.Path.of_runIf hd).mono fun _ a ha => by
      cases a <;> trivial
  have halong : (machine {}).Along Faultless d := ⟨_, ⟨rfl, rfl, rfl⟩, hpath⟩
  have hlive : ∀ err, x.await ≠ .crashed err := by
    simp [hawait]
  exact ⟨d, d', x, y, halong, hd', hx, hy,
    (crashes_iff (a := .answer 1) halong trivial hd' hx hy hlive).mpr
      ⟨rfl, .inl (.inl ⟨hawait, htables⟩)⟩⟩

/-! ## When a process can be started -/

/-- The server updates the stream it holds, or adds one. -/
structure Updates (d : Deployment) : Prop where
  free : d.taken = false
  updatable : ∀ stream, d.stream = some stream → stream.updatable = true

/-- What the server brings into the configuration asked for, it updates. -/
theorem updates_of_ok {await : Await} (hawait : await = .updateStream ∨ await = .addStream)
    (hrespond : d.respond settings await = some (.ok ())) : d.Updates := by
  rcases hawait with rfl | rfl
  · rw [respond] at hrespond
    split at hrespond
    · cases hrespond
    · rename_i stream hstream
      split at hrespond
      · cases hrespond
      · rename_i hfree
        split at hrespond
        · rename_i hupdatable
          refine ⟨Bool.of_not_eq_true hfree, fun stream' hstream' => ?_⟩
          rw [hstream] at hstream'
          cases hstream'
          exact hupdatable
        · cases hrespond
  · rw [respond] at hrespond
    split at hrespond
    · cases hrespond
    · rename_i hfree
      refine ⟨Bool.of_not_eq_true hfree, fun stream hstream => ?_⟩
      rw [hstream] at hrespond
      dsimp only at hrespond
      split at hrespond
      · rename_i hensured
        rw [hensured]
        rfl
      · cases hrespond

/-- An answer that is no update leaves the streams as they are. -/
theorem updates_of_executed {await : Await} (hrespond : d.respond settings await = some (.ok ()))
    (h : (d.executed settings await).Updates) : d.Updates := by
  unfold executed at h
  split at h
  · split at h <;> exact ⟨h.free, h.updatable⟩
  · exact updates_of_ok (.inl rfl) hrespond
  · exact updates_of_ok (.inr rfl) hrespond
  · exact h

/-- Without a fault a stream that the server does not update stays so. -/
theorem updates_of_step (hok : d.Faultless a) (hs : d.step settings a = some d')
    (h : d'.Updates) : d.Updates := by
  cases a with
  | launch kind =>
    cases hs
    exact ⟨h.free, h.updatable⟩
  | answer p =>
    obtain ⟨x, hx, hs⟩ := Option.bind_eq_some_iff.mp hs
    unfold answer at hs
    split at hs
    · cases hs
    · rename_i hrespond
      obtain ⟨y, -, rfl⟩ := Option.map_eq_some_iff.mp hs
      exact updates_of_executed hrespond ⟨h.free, h.updatable⟩
    · cases hs
      exact ⟨h.free, h.updatable⟩
  | fault p executed err =>
    obtain ⟨x, hx, hs⟩ := Option.bind_eq_some_iff.mp hs
    obtain ⟨x', hx', attempt, -, hcaught⟩ := hok
    rw [hx] at hx'
    cases hx'
    have hexecuted : d.executed settings x.await = d := by
      rcases hcaught with ⟨hawait, -⟩ | ⟨hawait, -⟩ <;> rw [hawait] <;> rfl
    unfold fault at hs
    rw [hexecuted] at hs
    split at hs
    · cases hs
    · split at hs
      · cases hs
      · split at hs <;> cases hs <;> exact ⟨h.free, h.updatable⟩
  | signal p =>
    obtain ⟨x, hx, hs⟩ := Option.bind_eq_some_iff.mp hs
    split at hs <;> cases hs
    exact ⟨h.free, h.updatable⟩
  | kill | loseStream => exact hok.elim
  | request p =>
    obtain ⟨x, hx, hs⟩ := Option.bind_eq_some_iff.mp hs
    split at hs <;> cases hs
    exact ⟨h.free, h.updatable⟩
  | publish p subject =>
    obtain ⟨x, hx, hs⟩ := Option.bind_eq_some_iff.mp hs
    have hcases : d' = d ∨ d' = d.publish subject := by
      split at hs
      · split at hs <;> cases hs
        · exact .inr rfl
        · exact .inl rfl
      · cases hs
    rcases hcases with rfl | rfl
    · exact h
    · refine ⟨(publish_taken ..).symm.trans h.free, fun stream hstream => h.updatable stream ?_⟩
      rwa [publish_stream]

/-- A process that needs a stream, and has not come past `connect`. -/
def Held (x : Process) : Prop := x.kind ≠ .api → x.await.stage ≤ 2

theorem held_crash (x : Process) (err : StartupError) : Held (x.crash err) :=
  fun _ => Nat.zero_le 2

/-- Where the server does not update, an await that returns is none of `connect`'s last. -/
theorem Held.returned (h : Held x) (hupdates : ¬ d.Updates)
    (hrespond : d.respond settings x.await = some (.ok ()))
    (hreturned : x.returned settings (!d.tables) = some y) : Held y := by
  unfold Process.returned at hreturned
  have hstage := h
  simp only [Held] at hstage
  cases hawait : x.await with
  | checkTables | streamInfo =>
    rw [hawait] at hreturned
    cases hreturned
    exact fun _ => by simp [Process.moveTo, Await.stage]
  | createTables missing =>
    rw [hawait] at hreturned
    obtain ⟨await, hnext, rfl⟩ := Option.map_eq_some_iff.mp hreturned
    cases hkind : x.kind <;> rw [hkind] at hnext <;> cases hnext
    · exact fun hnot => absurd hkind hnot
    · exact fun _ => by simp [Process.moveTo, Await.stage]
  | natsConnect attempt =>
    rw [hawait] at hreturned
    cases hreturned
    exact fun _ => Nat.le_refl 2
  | natsSleep attempt lastErr =>
    rw [hawait] at hreturned
    dsimp only at hreturned
    split at hreturned <;> cases hreturned
    · exact fun _ => by simp [Process.moveTo, Await.stage]
    · exact held_crash _ _
  | updateStream => exact absurd (updates_of_ok (.inl hawait) hrespond) hupdates
  | addStream => exact absurd (updates_of_ok (.inr hawait) hrespond) hupdates
  | temporalConnect attempt =>
    rw [hawait] at hreturned hstage
    obtain ⟨await, -, rfl⟩ := Option.map_eq_some_iff.mp hreturned
    exact fun hkind => absurd (hstage hkind) (by simp [Await.stage])
  | temporalSleep attempt lastErr =>
    rw [hawait] at hreturned hstage
    dsimp only at hreturned
    split at hreturned <;> cases hreturned
    · exact fun hkind => absurd (hstage hkind) (by simp [Await.stage])
    · exact held_crash _ _
  | subscribe subject rest =>
    rw [hawait] at hreturned hstage
    cases rest <;> cases hreturned <;>
      exact fun hkind => absurd (hstage hkind) (by simp [Await.stage])
  | shutdown | drain =>
    rw [hawait] at hreturned hstage
    cases hreturned
    exact fun hkind => absurd (hstage hkind) (by simp [Await.stage])
  | serving | exited | crashed =>
    rw [hawait] at hreturned
    cases hreturned

theorem Held.raised (h : Held x) (err : StartupError) : Held (x.raised err) := by
  unfold Process.raised
  split
  · split
    · exact fun _ => by simp [Process.moveTo, Await.stage]
    · exact held_crash _ _
  · split
    · exact fun _ => Nat.le_refl 2
    · exact held_crash _ _
  · split
    · exact fun _ => Nat.le_refl 2
    · exact held_crash _ _
  · rename_i attempt hawait
    split
    · exact fun hkind => absurd (h hkind) (by simp [hawait, Await.stage])
    · exact held_crash _ _
  · exact held_crash _ _

theorem Held.steady (h : Held x) (hupdates : ¬ d.Updates)
    (hsteady : Steady settings d d' p x a y) : Held y := by
  cases hsteady with
  | idle => exact h
  | returned hrespond hreturned => exact h.returned hupdates hrespond hreturned
  | refused => exact h.raised _
  | natsRefused => exact fun _ => by simp [Process.moveTo, Await.stage]
  | temporalRefused hattempt hawait =>
    exact fun hkind => absurd (h hkind) (by simp [hawait, Await.stage])
  | stopped hserving =>
    unfold Process.stopped
    split
    · exact fun _ => Nat.zero_le 2
    · exact fun hkind => absurd (h hkind) (by simp [hserving, Await.stage])
    · exact fun hkind => absurd (h hkind) (by simp [hserving, Await.stage])

theorem held_launch (kind : ProcessKind) : Held (.launch kind) := by
  intro _
  cases kind <;> simp [Process.launch, ProcessKind.start, Await.stage]

/-- Where the server does not update, none of the processes launched from then on comes past
`connect`. -/
theorem held_of_path (hupdates : ¬ d.Updates) (hp : (machine settings).Path Faultless d d') :
    ∀ (p : ℕ) (x : Process), d.processes.length ≤ p → d'.processes[p]? = some x → Held x := by
  have hinvariant : ¬ d'.Updates ∧
      ∀ (p : ℕ) (x : Process), d.processes.length ≤ p → d'.processes[p]? = some x → Held x := by
    refine hp.invariant (I := fun e => ¬ e.Updates ∧
      ∀ (p : ℕ) (x : Process), d.processes.length ≤ p → e.processes[p]? = some x → Held x)
      ⟨hupdates, fun p x hle hx => ?_⟩ fun {e a e'} _ ih hok hs => ?_
    · exact absurd (List.getElem?_eq_some_iff.mp hx).1 (by omega)
    · refine ⟨fun h => ih.1 (updates_of_step hok hs h), fun p y hle hy => ?_⟩
      rcases steady_or_launched hok hs hy with ⟨x, hx, hsteady⟩ | ⟨kind, rfl⟩
      · exact (ih.2 p x hle hx).steady ih.1 hsteady
      · exact held_launch kind
  exact hinvariant.2

/-- The last of the processes is answered. -/
theorem exists_answered (settings : Settings) {l : List Process} (hl : d.processes = l ++ [x])
    (hrespond : d.respond settings x.await = some (.ok ()))
    (hreturned : x.returned settings (!d.tables) = some y) :
    ∃ d', (machine settings).Path Faultless d d' ∧ d'.processes = l ++ [y] ∧
      d'.tables = (d.executed settings x.await).tables ∧
      d'.stream = (d.executed settings x.await).stream := by
  have hx : d.processes[l.length]? = some x := by
    rw [hl]
    exact List.getElem?_concat_length ..
  refine ⟨(d.executed settings x.await).setProcess l.length y,
    .single (a := .answer l.length) trivial ?_, ?_, rfl, rfl⟩
  · change (d.processes[l.length]?).bind _ = _
    simp only [hx, Option.bind_some, answer, hrespond, hreturned, Option.map_some]
  · simp [setProcess, hl]

theorem exists_refused (settings : Settings) {l : List Process} (hl : d.processes = l ++ [x])
    {err : StartupError} (hrespond : d.respond settings x.await = some (.error err)) :
    ∃ d', (machine settings).Path Faultless d d' ∧ d'.processes = l ++ [x.raised err] ∧
      d'.tables = d.tables ∧ d'.stream = d.stream := by
  have hx : d.processes[l.length]? = some x := by
    rw [hl]
    exact List.getElem?_concat_length ..
  refine ⟨d.setProcess l.length (x.raised err), .single (a := .answer l.length) trivial ?_, ?_,
    rfl, rfl⟩
  · change (d.processes[l.length]?).bind _ = _
    simp only [hx, Option.bind_some, answer, hrespond]
  · simp [setProcess, hl]

/-- `create_all`, by itself. -/
theorem exists_tables (settings : Settings) {l : List Process} {next : Await}
    (hl : d.processes = l ++ [x]) (hawait : x.await = .checkTables)
    (hnext : x.kind.afterTables = some next) :
    ∃ d', (machine settings).Path Faultless d d' ∧ d'.processes = l ++ [x.moveTo next] ∧
      d'.tables = true ∧ d'.stream = d.stream := by
  obtain ⟨d₁, hp₁, hl₁, htables₁, hstream₁⟩ := exists_answered settings
    (y := x.moveTo (.createTables !d.tables)) hl (by rw [hawait]; rfl)
    (by rw [Process.returned, hawait])
  rw [hawait] at htables₁ hstream₁
  change d₁.tables = d.tables at htables₁
  obtain ⟨d₂, hp₂, hl₂, htables₂, hstream₂⟩ := exists_answered settings
    (y := x.moveTo next) hl₁ (by
      change d₁.respond settings (.createTables !d.tables) = _
      rw [respond, htables₁]
      cases d.tables <;> rfl) (by
      change x.kind.afterTables.map _ = _
      rw [hnext]
      rfl)
  refine ⟨d₂, hp₁.trans hp₂, hl₂, ?_, ?_⟩
  · rw [htables₂]
    change (d₁.executed settings (.createTables !d.tables)).tables = true
    rw [executed]
    cases hd : d.tables with
    | false => rfl
    | true => exact htables₁.trans hd
  · rw [hstream₂]
    change (d₁.executed settings (.createTables !d.tables)).stream = d.stream
    rw [executed]
    split <;> exact hstream₁

theorem Effect.taken_eq (he : Effect settings d a d') : d'.taken = d.taken := by
  cases he with
  | launched | lost | requested => rfl
  | moved hx he hmoves =>
    rcases he with rfl | rfl
    · rfl
    · exact executed_taken ..
  | published hx hruns hworkflows hpublish =>
    rcases hpublish with rfl | rfl
    · rfl
    · exact publish_taken ..

theorem taken_of_path (hp : (machine settings).Path Faultless d d') : d'.taken = d.taken :=
  hp.invariant (I := fun e => e.taken = d.taken) rfl fun _ ih _ hs =>
    (effect_of_step hs).taken_eq.trans ih

/-- `nats_client.connect`, by itself: the stream is updated, or else added. -/
theorem exists_connected (settings : Settings) {l : List Process} {next : Await}
    (hl : d.processes = l ++ [x]) (hawait : x.await = .natsConnect 1)
    (hnext : x.kind.afterConnect = some next) (hupdates : d.Updates) :
    ∃ d', (machine settings).Path Faultless d d' ∧
      d'.processes = l ++ [{ x with await := next, js := true }] ∧ d'.tables = d.tables ∧
      d'.stream = some (ensuredStream settings) := by
  obtain ⟨d₁, hp₁, hl₁, htables₁, hstream₁⟩ := exists_answered settings
    (y := { x with await := .streamInfo, js := true }) hl (by rw [hawait]; rfl)
    (by rw [Process.returned, hawait])
  rw [hawait] at htables₁ hstream₁
  change d₁.tables = d.tables at htables₁
  change d₁.stream = d.stream at hstream₁
  have hreturned : x.kind.afterConnect.map ({ x with await := .updateStream, js := true }).moveTo =
      some { x with await := next, js := true } := by
    rw [hnext]
    rfl
  cases hstream : d.stream with
  | none =>
    obtain ⟨d₂, hp₂, hl₂, htables₂, hstream₂⟩ := exists_refused settings hl₁
      (show d₁.respond settings .streamInfo = some (.error ⟨.notFound, "stream not found"⟩) by
        rw [respond, hstream₁, hstream])
    obtain ⟨d₃, hp₃, hl₃, htables₃, hstream₃⟩ := exists_answered settings
      (y := { x with await := next, js := true }) hl₂
      (by
        change d₂.respond settings .addStream = _
        rw [respond, taken_of_path (hp₁.trans hp₂), hupdates.free, hstream₂, hstream₁, hstream]
        rfl)
      (by exact hreturned)
    exact ⟨d₃, (hp₁.trans hp₂).trans hp₃, hl₃, (htables₃.trans htables₂).trans htables₁, hstream₃⟩
  | some stream =>
    obtain ⟨d₂, hp₂, hl₂, htables₂, hstream₂⟩ := exists_answered settings
      (y := { x with await := .updateStream, js := true }) hl₁
      (by rw [respond, hstream₁, hstream]) rfl
    obtain ⟨d₃, hp₃, hl₃, htables₃, hstream₃⟩ := exists_answered settings
      (y := { x with await := next, js := true }) hl₂
      (by
        change d₂.stream = d₁.stream at hstream₂
        rw [respond, taken_of_path (hp₁.trans hp₂), hupdates.free, hstream₂, hstream₁, hstream]
        exact if_pos (hupdates.updatable stream hstream))
      (by exact hreturned)
    exact ⟨d₃, (hp₁.trans hp₂).trans hp₃, hl₃, (htables₃.trans htables₂).trans htables₁, hstream₃⟩

theorem bound_eq_false {l : List Process} {subject : String} (hl : d.processes = l ++ [x])
    (hfree : ∀ z ∈ l, subject ∉ z.subscriptions) (hx : subject ∉ x.subscriptions) :
    d.bound subject = false := by
  rw [bound, hl, List.any_eq_false]
  intro z hz
  rw [List.contains_iff_mem]
  rcases List.mem_append.mp hz with hz | hz
  · exact hfree z hz
  · exact (List.mem_singleton.mp hz) ▸ hx

/-- One `js.subscribe`, by itself. -/
theorem exists_subscribed (settings : Settings) {l : List Process} {subject : String}
    {rest : List String} (hl : d.processes = l ++ [x]) (hawait : x.await = .subscribe subject rest)
    (hstream : d.stream = some (ensuredStream settings))
    (hsubject : subject ∈ streamSubjects) (hfree : ∀ z ∈ l, subject ∉ z.subscriptions)
    (hx : subject ∉ x.subscriptions) (hreturned : x.returned settings (!d.tables) = some y) :
    ∃ d', (machine settings).Path Faultless d d' ∧ d'.processes = l ++ [y] ∧
      d'.tables = d.tables ∧ d'.stream = d.stream := by
  have hcontains : (ensuredStream settings).subjects.contains subject = true :=
    List.contains_iff_mem.mpr hsubject
  obtain ⟨d', hp, hl', htables, hstream'⟩ := exists_answered settings hl
    (by
      rw [hawait, respond, hstream]
      dsimp only
      rw [if_pos hcontains, bound_eq_false hl hfree hx]
      rfl) hreturned
  rw [hawait] at htables hstream'
  exact ⟨d', hp, hl', htables, hstream'⟩

/-- The end of a start: `get_client`, by itself. -/
theorem exists_client (settings : Settings) {l : List Process} (hl : d.processes = l ++ [x])
    (hawait : x.await = .temporalConnect 1) (hnext : x.kind.afterClient = some .serving) :
    ∃ d', (machine settings).Path Faultless d d' ∧
      d'.processes = l ++ [{ x with await := .serving, client := true }] ∧ d'.tables = d.tables ∧
      d'.stream = d.stream := by
  obtain ⟨d', hp, hl', htables, hstream⟩ := exists_answered settings
    (y := { x with await := .serving, client := true }) hl (by rw [hawait]; rfl)
    (by rw [Process.returned, hawait, hnext]; rfl)
  rw [hawait] at htables hstream
  exact ⟨d', hp, hl', htables, hstream⟩

theorem exists_started (settings : Settings) (d : Deployment) (kind : ProcessKind)
    (hfree : kind = .consumer → ∀ subject ∈ streamSubjects, d.bound subject = false)
    (hupdates : kind ≠ .api → d.Updates) :
    ∃ d' x, (machine settings).Path Faultless d d' ∧ d'.processes = d.processes ++ [x] ∧
      x.kind = kind ∧ x.await = .serving ∧
      (kind = .consumer → ∀ subject ∈ streamSubjects, subject ∈ x.subscriptions) ∧
      (kind ≠ .api → d'.stream = some (ensuredStream settings)) := by
  let d₀ : Deployment := { d with processes := d.processes ++ [.launch kind] }
  have hlaunch : (machine settings).Path Faultless d d₀ :=
    .single (a := .launch kind) trivial rfl
  cases kind with
  | api =>
    obtain ⟨d₁, hp₁, hl₁, -, -⟩ := exists_tables settings (d := d₀) rfl rfl rfl
    obtain ⟨d₂, hp₂, hl₂, -, -⟩ := exists_client settings hl₁ rfl rfl
    exact ⟨d₂, _, (hlaunch.trans hp₁).trans hp₂, hl₂, rfl, rfl, by simp,
      fun hnot => absurd rfl hnot⟩
  | worker =>
    have hupdates₀ := hupdates (by decide)
    obtain ⟨d₁, hp₁, hl₁, -, hstream₁⟩ := exists_connected settings (d := d₀) rfl rfl
      rfl ⟨hupdates₀.free, hupdates₀.updatable⟩
    obtain ⟨d₂, hp₂, hl₂, -, hstream₂⟩ := exists_client settings hl₁ rfl rfl
    exact ⟨d₂, _, (hlaunch.trans hp₁).trans hp₂, hl₂, rfl, rfl, by simp,
      fun _ => hstream₂.trans hstream₁⟩
  | consumer =>
    have hfree' : ∀ subject ∈ streamSubjects, ∀ z ∈ d.processes, subject ∉ z.subscriptions := by
      intro subject hsubject z hz
      have hbound := List.any_eq_false.mp (hfree rfl subject hsubject) z hz
      rwa [List.contains_iff_mem] at hbound
    have htriaged : subjectReportTriaged ∈ streamSubjects := by simp [streamSubjects]
    have hrouted : subjectQueueRouted ∈ streamSubjects := by simp [streamSubjects]
    have hupdates₀ := hupdates (by decide)
    obtain ⟨d₁, hp₁, hl₁, -, hstream₁⟩ := exists_tables settings (d := d₀) rfl rfl rfl
    have hupdates₁ : d₁.Updates :=
      ⟨(taken_of_path hp₁).trans hupdates₀.free, hstream₁ ▸ hupdates₀.updatable⟩
    obtain ⟨d₂, hp₂, hl₂, -, hstream₂⟩ := exists_connected settings hl₁ rfl rfl hupdates₁
    obtain ⟨d₃, hp₃, hl₃, -, hstream₃⟩ := exists_subscribed settings hl₂ rfl hstream₂
      htriaged (hfree' _ htriaged) (by simp [Process.moveTo, Process.launch]) rfl
    obtain ⟨d₄, hp₄, hl₄, -, hstream₄⟩ := exists_subscribed settings hl₃ rfl
      (hstream₃.trans hstream₂) hrouted (hfree' _ hrouted)
      (by simp [Process.moveTo, Process.launch, subjectReportTriaged, subjectQueueRouted]) rfl
    refine ⟨d₄, _, (((hlaunch.trans hp₁).trans hp₂).trans hp₃).trans hp₄, hl₄, rfl, rfl, ?_,
      fun _ => (hstream₄.trans hstream₃).trans hstream₂⟩
    intro _ subject hsubject
    simp only [streamSubjects, List.mem_cons, List.not_mem_nil, or_false] at hsubject
    rcases hsubject with rfl | rfl <;> simp

/-- **When a process can be started.** Whatever has crashed, from every deployment a further
process of a kind comes to serve if it alone is answered, exactly if it is the API or the server
updates its stream; a consumer, if no process is subscribed. The stream then is the one asked for,
unless it is the API that starts, and the other processes are where they were. -/
theorem exists_serving (settings : Settings) (d : Deployment) (kind : ProcessKind)
    (hfree : kind = .consumer → ∀ subject ∈ streamSubjects, d.bound subject = false) :
    (∃ d' x, (machine settings).Path Faultless d d' ∧ d'.processes = d.processes ++ [x] ∧
      x.kind = kind ∧ x.await = .serving ∧
      (kind = .consumer → ∀ subject ∈ streamSubjects, subject ∈ x.subscriptions) ∧
      (kind ≠ .api → d'.stream = some (ensuredStream settings))) ↔
    (kind ≠ .api → d.Updates) := by
  refine ⟨?_, exists_started settings d kind hfree⟩
  rintro ⟨d', x, hp, hl, rfl, hawait, -, -⟩ hkind
  by_contra hupdates
  have hx : d'.processes[d.processes.length]? = some x := by
    rw [hl]
    exact List.getElem?_concat_length ..
  have hheld := held_of_path hupdates hp d.processes.length x (Nat.le_refl _) hx hkind
  rw [hawait] at hheld
  exact absurd hheld (by decide)

/-- A consumer that was killed is replaced, and finds a stream of an older configuration. -/
theorem exists_serving_replaced : ∃ d' x,
    (machine {}).Path Faultless ⟨true, some ⟨⟨"report-triage", [subjectReportTriaged], 60⟩, true⟩,
      false, 0, [], [(Process.launch .consumer).crash ⟨.other, "killed"⟩]⟩ d' ∧
      x ∈ d'.processes ∧ x.await = .serving ∧ subjectQueueRouted ∈ x.subscriptions ∧
      d'.stream = some (ensuredStream {}) := by
  obtain ⟨d', x, hp, hl, -, hawait, hsubscribed, hstream⟩ := (exists_serving {}
    ⟨true, some ⟨⟨"report-triage", [subjectReportTriaged], 60⟩, true⟩, false, 0, [],
      [(Process.launch .consumer).crash ⟨.other, "killed"⟩]⟩ .consumer
    (fun _ subject _ => by simp [bound, Process.crash])).mpr fun _ => ⟨rfl, by
      rintro stream ⟨⟩
      rfl⟩
  refine ⟨d', x, hp, ?_, hawait, hsubscribed rfl _ (by simp [streamSubjects]), hstream (by decide)⟩
  rw [hl]
  exact List.mem_append_right _ (List.mem_singleton_self x)

end Deployment

end ReportTriage

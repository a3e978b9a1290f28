import ReportTriage.Processes

/-!
# Starting up

A start goes through stages, and each leaves something that what runs later relies on: the
tables, the two clients, the stream. Processes do not wait for each other, so it matters that
nothing a process relies on is taken away by another one, and that what a process has not done
itself was done by whoever came before.

## Main definitions

* `Await.stage`, `Deployment.Established` — the stages, and what each leaves.
* `Deployment.Ready`, `Deployment.Prepared` — the invariant of a process, and of all.
* `Deployment.nothing_runs_unprepared` — what is there whenever something runs.
-/

namespace ReportTriage

/-! ## What a process has by then -/

/-- How far a start is. The three kinds of processes go through these stages in this order, each
leaving some out. -/
def Await.stage : Await → ℕ
  | checkTables | createTables _ => 0
  | natsConnect _ | natsSleep _ _ => 1
  | streamInfo | updateStream | addStream => 2
  | temporalConnect _ | temporalSleep _ _ => 3
  | subscribe _ _ => 4
  | serving | shutdown | drain => 5
  | exited | crashed _ => 0

namespace Deployment

/-- What a process has once it is past a stage. -/
def Established (settings : Settings) (d : Deployment) (x : Process) : ℕ → Prop
  | 0 => x.kind ≠ .worker → d.tables = true
  | 1 => x.kind ≠ .api → x.js = true
  | 2 => x.kind ≠ .api → d.Ensured settings
  | 3 => x.kind ≠ .consumer → x.client = true
  | _ => True

/-- What there is once a process has come to its await. -/
structure Ready (settings : Settings) (d : Deployment) (x : Process) : Prop where
  established : ∀ k < x.await.stage, Established settings d x k
  found : x.await = .createTables false → d.tables = true
  /-- The stream was not found, so from then on it is one that a process has added. -/
  addStream : x.await = .addStream → d.Ensured settings
  consumer : x.await.stage = 4 → x.kind = .consumer
  subscribed : ∀ subject ∈ x.subscriptions, x.kind = .consumer ∧ 3 < x.await.stage

variable {settings : Settings} {d d' : Deployment} {a : Action} {p : ℕ} {x y : Process}

theorem Established.mono {k : ℕ} (h : Established settings d x k) (hkeeps : Keeps settings d d') :
    Established settings d' x k := by
  match k with
  | 0 => exact fun hkind => hkeeps.tables (h hkind)
  | 1 | 3 => exact h
  | 2 => exact fun hkind => hkeeps.ensured (h hkind)
  | _ + 4 => trivial

theorem Ready.mono (h : Ready settings d x) (hkeeps : Keeps settings d d') :
    Ready settings d' x where
  established k hk := (h.established k hk).mono hkeeps
  found hawait := hkeeps.tables (h.found hawait)
  addStream hawait := hkeeps.ensured (h.addStream hawait)
  consumer := h.consumer
  subscribed := h.subscribed

theorem ready_launch (settings : Settings) (d : Deployment) (kind : ProcessKind) :
    Ready settings d (.launch kind) := by
  cases kind <;> constructor <;>
    simp [Process.launch, ProcessKind.start, Await.stage, Established]

theorem ready_crash (settings : Settings) (d : Deployment) (x : Process) (err : StartupError) :
    Ready settings d (x.crash err) := by
  constructor <;> simp [Process.crash, Await.stage]

/-- A process is ready for another await if it has what the stages up to there establish. -/
theorem Ready.moveTo (h : Ready settings d x) (await : Await) (hle : x.await.stage ≤ await.stage)
    (hnew : ∀ k, x.await.stage ≤ k → k < await.stage → Established settings d x k)
    (hfound : await = .createTables false → d.tables = true)
    (haddStream : await = .addStream → d.Ensured settings)
    (hconsumer : await.stage = 4 → x.kind = .consumer) : Ready settings d (x.moveTo await) where
  established k hk := by
    have hestablished : Established settings d x k := by
      rcases Nat.lt_or_ge k x.await.stage with hlt | hge
      · exact h.established k hlt
      · exact hnew k hge hk
    match k with
    | 0 | 1 | 2 | 3 => exact hestablished
    | _ + 4 => trivial
  found := hfound
  addStream := haddStream
  consumer := hconsumer
  subscribed subject hsubject :=
    (h.subscribed subject hsubject).imp_right fun hlt => lt_of_lt_of_le hlt hle

/-- Within a stage there is nothing new to establish. -/
theorem Ready.stay (h : Ready settings d x) (await : Await) (hstage : await.stage = x.await.stage)
    (hfound : await = .createTables false → d.tables = true)
    (haddStream : await = .addStream → d.Ensured settings) :
    Ready settings d (x.moveTo await) :=
  h.moveTo _ hstage.ge (fun k hk hk' => by omega) hfound haddStream
    fun hfour => h.consumer (hstage ▸ hfour)

theorem Ready.setJs (h : Ready settings d x) : Ready settings d { x with js := true } where
  established k hk := by
    match k with
    | 0 => exact h.established 0 hk
    | 1 => exact fun _ => rfl
    | 2 => exact h.established 2 hk
    | 3 => exact h.established 3 hk
    | _ + 4 => trivial
  found := h.found
  addStream := h.addStream
  consumer := h.consumer
  subscribed := h.subscribed

theorem Ready.setClient (h : Ready settings d x) :
    Ready settings d { x with client := true } where
  established k hk := by
    match k with
    | 0 => exact h.established 0 hk
    | 1 => exact h.established 1 hk
    | 2 => exact h.established 2 hk
    | 3 => exact fun _ => rfl
    | _ + 4 => trivial
  found := h.found
  addStream := h.addStream
  consumer := h.consumer
  subscribed := h.subscribed

theorem Ready.subscribe (h : Ready settings d x) (hstage : x.await.stage = 4) (subject : String) :
    Ready settings d { x with subscriptions := subject :: x.subscriptions } where
  established k hk := by
    match k with
    | 0 => exact h.established 0 hk
    | 1 => exact h.established 1 hk
    | 2 => exact h.established 2 hk
    | 3 => exact h.established 3 hk
    | _ + 4 => trivial
  found := h.found
  addStream := h.addStream
  consumer := h.consumer
  subscribed _ _ := ⟨h.consumer hstage, by
    change 3 < x.await.stage
    omega⟩

theorem Ready.afterTables (h : Ready settings d x) (hstage : x.await.stage = 0)
    (htables : d.tables = true) (hy : x.kind.afterTables.map x.moveTo = some y) :
    Ready settings d y := by
  obtain ⟨await, hawait, rfl⟩ := Option.map_eq_some_iff.mp hy
  cases hkind : x.kind with
  | api =>
    rw [hkind] at hawait
    cases hawait
    refine h.moveTo _ (by omega) (fun k _ hk => ?_) nofun nofun nofun
    match k with
    | 0 => exact fun _ => htables
    | 1 | 2 => exact fun hnot => absurd hkind hnot
    | k + 3 =>
      change k + 3 < 3 at hk
      omega
  | worker =>
    rw [hkind] at hawait
    cases hawait
  | consumer =>
    rw [hkind] at hawait
    cases hawait
    refine h.moveTo _ (by omega) (fun k _ hk => ?_) nofun nofun nofun
    change k < 1 at hk
    obtain rfl : k = 0 := by omega
    exact fun _ => htables

theorem Ready.afterConnect (h : Ready settings d x) (hstage : x.await.stage = 2)
    (hensured : d.Ensured settings) (hy : x.kind.afterConnect.map x.moveTo = some y) :
    Ready settings d y := by
  obtain ⟨await, hawait, rfl⟩ := Option.map_eq_some_iff.mp hy
  cases hkind : x.kind with
  | api =>
    rw [hkind] at hawait
    cases hawait
  | worker =>
    rw [hkind] at hawait
    cases hawait
    refine h.moveTo _ (hstage ▸ by decide) (fun k hk hk' => ?_) nofun nofun nofun
    change k < 3 at hk'
    obtain rfl : k = 2 := by omega
    exact fun _ => hensured
  | consumer =>
    rw [hkind] at hawait
    cases hawait
    refine h.moveTo _ (hstage ▸ by decide) (fun k hk hk' => ?_) nofun nofun fun _ => hkind
    change k < 4 at hk'
    obtain rfl | rfl : k = 2 ∨ k = 3 := by omega
    · exact fun _ => hensured
    · exact fun hnot => absurd hkind hnot

theorem Ready.afterClient (h : Ready settings d x) (hstage : x.await.stage = 3)
    (hy : (x.kind.afterClient.map fun await => { x with await := await, client := true }) =
      some y) : Ready settings d y := by
  obtain ⟨await, hawait, rfl⟩ := Option.map_eq_some_iff.mp hy
  obtain rfl : await = .serving := by
    cases hkind : x.kind <;> rw [hkind] at hawait <;> cases hawait <;> rfl
  refine h.setClient.moveTo .serving ?_ (fun k hk hk' => ?_) nofun nofun nofun
  · change x.await.stage ≤ 5
    omega
  · change x.await.stage ≤ k at hk
    change k < 5 at hk'
    obtain rfl | rfl : k = 3 ∨ k = 4 := by omega
    · exact fun _ => rfl
    · trivial

/-- An await that returns leaves its process ready for the next one. -/
theorem Ready.returned (h : Ready settings d x) (hkeeps : Keeps settings d d')
    (hreturned : x.returned settings (!d.tables) = some y)
    (htables : d'.tables = (d.executed settings x.await).tables)
    (hstream : d'.stream = (d.executed settings x.await).stream) : Ready settings d' y := by
  have h' := h.mono hkeeps
  have hfound := h.found
  unfold Process.returned at hreturned
  cases hawait : x.await with
  | checkTables =>
    rw [hawait] at hreturned htables
    cases hreturned
    refine h'.stay _ (by simp [hawait, Await.stage]) (fun hmissing => ?_) nofun
    rw [htables]
    simpa [executed] using hmissing
  | createTables missing =>
    rw [hawait] at hreturned htables
    refine h'.afterTables (by simp [hawait, Await.stage]) ?_ hreturned
    rw [htables]
    cases missing with
    | false => exact hfound hawait
    | true => rfl
  | natsConnect attempt =>
    rw [hawait] at hreturned
    cases hreturned
    refine h'.setJs.moveTo .streamInfo ?_ (fun k hk hk' => ?_) nofun nofun nofun
    · simp [hawait, Await.stage]
    · obtain rfl : k = 1 := by
        simp only [hawait, Await.stage] at hk hk'
        omega
      exact fun _ => rfl
  | natsSleep attempt lastErr =>
    rw [hawait] at hreturned
    dsimp only at hreturned
    split at hreturned <;> cases hreturned
    · exact h'.stay _ (by simp [hawait, Await.stage]) nofun nofun
    · exact ready_crash ..
  | streamInfo =>
    rw [hawait] at hreturned
    cases hreturned
    exact h'.stay _ (by simp [hawait, Await.stage]) nofun nofun
  | updateStream | addStream =>
    rw [hawait] at hreturned hstream
    refine h'.afterConnect (by simp [hawait, Await.stage]) (fun stream hsome => ?_) hreturned
    rw [hstream] at hsome
    exact (Option.some.inj hsome).symm
  | temporalConnect attempt =>
    rw [hawait] at hreturned
    exact h'.afterClient (by simp [hawait, Await.stage]) hreturned
  | temporalSleep attempt lastErr =>
    rw [hawait] at hreturned
    dsimp only at hreturned
    split at hreturned <;> cases hreturned
    · exact h'.stay _ (by simp [hawait, Await.stage]) nofun nofun
    · exact ready_crash ..
  | subscribe subject rest =>
    rw [hawait] at hreturned
    have hsubscribed := h'.subscribe (by simp [hawait, Await.stage]) subject
    cases rest with
    | nil =>
      cases hreturned
      refine hsubscribed.moveTo .serving ?_ (fun k hk hk' => ?_) nofun nofun nofun
      · simp [hawait, Await.stage]
      · obtain rfl : k = 4 := by
          simp only [hawait, Await.stage] at hk hk'
          omega
        trivial
    | cons next rest =>
      cases hreturned
      exact hsubscribed.stay (.subscribe next rest) (by simp [hawait, Await.stage]) nofun
        nofun
  | shutdown =>
    rw [hawait] at hreturned
    cases hreturned
    exact h'.stay _ (by simp [hawait, Await.stage]) nofun nofun
  | drain =>
    rw [hawait] at hreturned
    cases hreturned
    constructor <;> simp [Await.stage]
  | serving | exited | crashed =>
    rw [hawait] at hreturned
    cases hreturned

/-- A stream that was not found is not there. -/
theorem ensured_of_notFound {err : StartupError} (hkind : err.kind = .notFound)
    (hawait : x.await = .streamInfo ∨ x.await = .updateStream) (hsame : d'.stream = d.stream)
    (hrespond : d.respond settings x.await = some (.error err)) : d'.Ensured settings := by
  intro stream hstream
  rw [hsame] at hstream
  rcases hawait with hawait | hawait <;> rw [hawait, respond, hstream] at hrespond
  · cases hrespond
  · dsimp only at hrespond
    split at hrespond
    · cases hrespond
      cases hkind
    · split at hrespond <;> cases hrespond
      cases hkind

/-- So does one that raises: it is caught, within the stage, or the process ends. -/
theorem Ready.raised (h : Ready settings d x) (hkeeps : Keeps settings d d') {err : StartupError}
    (hstream : err.kind = .notFound →
      d'.stream = d.stream ∧ d.respond settings x.await = some (.error err)) :
    Ready settings d' (x.raised err) := by
  have h' := h.mono hkeeps
  unfold Process.raised
  split
  · rename_i attempt hawait
    split
    · exact h'.stay _ (by simp [hawait, Await.stage]) nofun nofun
    · exact ready_crash ..
  · rename_i hawait
    split
    · rename_i hkind
      obtain ⟨hsame, hrespond⟩ := hstream hkind
      exact h'.stay _ (by simp [hawait, Await.stage]) nofun
        fun _ => ensured_of_notFound hkind (.inl hawait) hsame hrespond
    · exact ready_crash ..
  · rename_i hawait
    split
    · rename_i hkind
      obtain ⟨hsame, hrespond⟩ := hstream hkind
      exact h'.stay _ (by simp [hawait, Await.stage]) nofun
        fun _ => ensured_of_notFound hkind (.inr hawait) hsame hrespond
    · exact ready_crash ..
  · rename_i attempt hawait
    split
    · exact h'.stay _ (by simp [hawait, Await.stage]) nofun nofun
    · exact ready_crash ..
  · exact ready_crash ..

theorem Ready.stopped (h : Ready settings d x) (hserving : x.await = .serving) :
    Ready settings d x.stopped := by
  unfold Process.stopped
  split
  · rename_i hkind
    constructor <;> simp [Await.stage]
    intro subject hsubject
    have hconsumer := (h.subscribed subject hsubject).1
    rw [hkind] at hconsumer
    cases hconsumer
  · exact h.stay _ (by simp [hserving, Await.stage]) nofun nofun
  · exact h.stay _ (by simp [hserving, Await.stage]) nofun nofun

theorem Ready.moves (h : Ready settings d x) (hkeeps : Keeps settings d d')
    (hmoves : Moves settings d d' x y) : Ready settings d' y := by
  cases hmoves with
  | returned hrespond hreturned htables hstream =>
    exact h.returned hkeeps hreturned htables hstream
  | raised hstream => exact h.raised hkeeps hstream
  | stopped hserving => exact (h.mono hkeeps).stopped hserving
  | killed err => exact ready_crash ..

/-! ## Safety -/

/-- Every process is ready for what it does, a workflow has its tables, and what is stored was
stored with the duplicate window. -/
structure Prepared (settings : Settings) (d : Deployment) : Prop where
  processes : ∀ (p : ℕ) (x : Process), d.processes[p]? = some x → Ready settings d x
  workflows : 0 < d.workflows → d.tables = true
  stored : ∀ m ∈ d.stored, m.1 ∈ streamSubjects ∧ m.2 = duplicateWindow

theorem prepared_of_fresh (h : Fresh d) : Prepared settings d where
  processes := by simp [h.processes]
  workflows := by simp [h.workflows]
  stored := by simp [h.stored]

theorem Ready.of_servesRequests (h : Ready settings d x) (hserves : x.servesRequests = true) :
    d.tables = true ∧ x.client = true := by
  simp only [Process.servesRequests, Bool.and_eq_true, decide_eq_true_eq] at hserves
  obtain ⟨hkind, hawait⟩ := hserves
  have hestablished := h.established
  rw [hawait] at hestablished
  exact ⟨hestablished 0 (by decide) (by rw [hkind]; decide),
    hestablished 3 (by decide) (by rw [hkind]; decide)⟩

theorem Ready.of_runsActivities (h : Ready settings d x) (hruns : x.runsActivities = true) :
    x.js = true ∧ x.client = true ∧ d.Ensured settings := by
  simp only [Process.runsActivities, Bool.and_eq_true, Bool.or_eq_true, decide_eq_true_eq] at hruns
  obtain ⟨hkind, hawait⟩ := hruns
  have hstage : x.await.stage = 5 := by
    rcases hawait with hawait | hawait <;> rw [hawait] <;> rfl
  have hestablished := h.established
  rw [hstage] at hestablished
  exact ⟨hestablished 1 (by decide) (by rw [hkind]; decide),
    hestablished 3 (by decide) (by rw [hkind]; decide),
    hestablished 2 (by decide) (by rw [hkind]; decide)⟩

theorem Ready.of_subscribed (h : Ready settings d x) {subject : String}
    (hsubject : subject ∈ x.subscriptions) :
    x.kind = .consumer ∧ d.tables = true ∧ x.js = true ∧ d.Ensured settings := by
  obtain ⟨hkind, hstage⟩ := h.subscribed subject hsubject
  exact ⟨hkind, h.established 0 (by omega) (by rw [hkind]; decide),
    h.established 1 (by omega) (by rw [hkind]; decide),
    h.established 2 (by omega) (by rw [hkind]; decide)⟩

theorem Prepared.step (h : Prepared settings d) (he : Effect settings d a d') :
    Prepared settings d' where
  processes p y hy := by
    rcases he.process hy with hold | ⟨kind, rfl⟩ | ⟨x, hx, hmoves⟩
    · exact (h.processes p y hold).mono he.keeps
    · exact ready_launch ..
    · exact (h.processes p x hx).moves he.keeps hmoves
  workflows := by
    have hkeeps := he.keeps.tables
    cases he with
    | launched | lost => exact h.workflows
    | moved hx he hmoves =>
      intro hworkflows
      refine hkeeps (h.workflows ?_)
      rcases he with rfl | rfl
      · exact hworkflows
      · simpa [setProcess] using hworkflows
    | requested hx hserves =>
      exact fun _ => ((h.processes _ _ hx).of_servesRequests hserves).1
    | published hx hruns hworkflows hpublish => exact fun _ => hkeeps (h.workflows hworkflows)
  stored := by
    cases he with
    | launched | lost | requested => exact h.stored
    | moved hx he hmoves =>
      rcases he with rfl | rfl
      · exact h.stored
      · simpa [setProcess] using h.stored
    | @published p subject x hx hruns hworkflows d' hpublish =>
      rcases hpublish with rfl | rfl
      · exact h.stored
      · rcases publish_cases d subject with heq | ⟨stream, hstream, hsubject, heq⟩ <;> rw [heq]
        · exact h.stored
        · have hensured := ((h.processes _ _ hx).of_runsActivities hruns).2.2
          obtain rfl := hensured stream hstream
          intro m hm
          rcases List.mem_append.mp hm with hm | hm
          · exact h.stored m hm
          · obtain rfl := List.mem_singleton.mp hm
            exact ⟨hsubject, rfl⟩

theorem prepared_of_reachable (h : (machine settings).Reachable d) : Prepared settings d :=
  h.invariant prepared_of_fresh fun _ ht hstep => ht.step (effect_of_step hstep)

/-- **Nothing runs unprepared.** Whatever starts in whatever order and crashes wherever, and
whatever stream the server had before: the API handles requests only once there are tables and a
client; an activity runs only with a context, a client and tables, and if there is a stream it is
the one asked for; messages are only delivered to a consumer, once there are tables; and every
message that was ever stored was stored under the duplicate window. -/
theorem nothing_runs_unprepared (h : (machine settings).Reachable d) :
    (∀ x ∈ d.processes, x.servesRequests = true → d.tables = true ∧ x.client = true) ∧
    (∀ x ∈ d.processes, x.runsActivities = true → x.js = true ∧ x.client = true ∧
      d.Ensured settings ∧ (0 < d.workflows → d.tables = true)) ∧
    (∀ x ∈ d.processes, ∀ subject ∈ x.subscriptions, x.kind = .consumer ∧ d.tables = true ∧
      x.js = true ∧ d.Ensured settings) ∧
    ∀ m ∈ d.stored, m.1 ∈ streamSubjects ∧ m.2 = duplicateWindow := by
  have hprepared := prepared_of_reachable h
  have hready : ∀ x ∈ d.processes, Ready settings d x := fun x hx => by
    obtain ⟨p, hp⟩ := List.getElem?_of_mem hx
    exact hprepared.processes p x hp
  refine ⟨fun x hx hserves => (hready x hx).of_servesRequests hserves, fun x hx hruns => ?_,
    fun x hx subject hsubject => (hready x hx).of_subscribed hsubject, hprepared.stored⟩
  obtain ⟨hjs, hclient, hensured⟩ := (hready x hx).of_runsActivities hruns
  exact ⟨hjs, hclient, hensured, hprepared.workflows⟩

/-- The API starts, the worker starts against a stream of an older configuration, a workflow
publishes, and the worker is killed. -/
theorem nothing_runs_unprepared_upgraded : ∃ d : Deployment, (machine {}).Reachable d ∧
    d.stored ≠ [] ∧ ∀ m ∈ d.stored, m.2 = duplicateWindow := by
  have hrun : (((machine {}).run
      ⟨false, some ⟨⟨"report-triage", [subjectReportTriaged], 60⟩, true⟩, false, 0, [], []⟩
      [.launch .api, .launch .worker, .answer 0, .answer 1, .answer 0, .answer 1, .answer 0,
        .answer 1, .answer 1, .request 0, .publish 1 subjectReportTriaged, .kill 1]).any fun d =>
      !d.stored.isEmpty) = true := by decide +kernel
  obtain ⟨d, hd, hp⟩ := (Option.any_eq_true _ _).mp hrun
  have hreach : (machine {}).Reachable d := ⟨_, ⟨rfl, rfl, rfl⟩, .of_runIf hd⟩
  refine ⟨d, hreach, ?_, fun m hm => ((nothing_runs_unprepared hreach).2.2.2 m hm).2⟩
  simpa using hp

end Deployment

end ReportTriage

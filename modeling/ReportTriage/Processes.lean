import Mathlib.Logic.Function.Iterate
import ReportTriage.Lib.Slots
import ReportTriage.NatsClient

/-!
# The processes

Three kinds of processes start in any order, any number of times, against servers that may not be
up yet: the API creates the tables and connects to Temporal; the worker connects to NATS and then
to Temporal; the consumer creates the tables, connects to NATS and subscribes. An exception that
its `lifespan` or `_run` does not catch ends a process, and with it its module globals.

A process is at one of its awaits. The servers answer it from their own state, or the call fails,
whether or not it has been executed; processes are killed, and the NATS server, which has no
volume, may lose the stream. The server refuses to update a stream where that would change a
setting which has to stay, such as its storage, and a stream whose subjects another one has.

## Main definitions

* `Await`, `Process` — where a process is, and its globals.
* `StoredStream` — a stream of the server, which an update may change or not.
* `Deployment.respond`, `Deployment.machine` — the servers, and all processes.
* `Deployment.effect_of_step` — what a step does.
* `Process.connect_eq_follow` — the awaits of `connect` are those of `NatsClient.connect`.
-/

namespace ReportTriage

/-! ## Processes -/

/-- The exceptions that `connect` and `get_client` tell apart. -/
inductive StartupErrorKind
  /-- `NoServersError`, or an `OSError`. -/
  | unreachable
  /-- The `NotFoundError` of JetStream. -/
  | notFound
  | runtimeError
  | other
  deriving DecidableEq, Repr

structure StartupError where
  kind : StartupErrorKind
  text : String
  deriving DecidableEq, Repr

structure Settings extends NatsSettings where
  temporalHost : String := "localhost:7233"

inductive ProcessKind
  | api
  | worker
  | consumer
  deriving DecidableEq, Repr

/-- The await a process is at. -/
inductive Await
  /-- `create_all` looks for the tables. -/
  | checkTables
  /-- `create_all` creates what it has not found, and the transaction commits. -/
  | createTables (missing : Bool)
  | natsConnect (attempt : ℕ)
  | natsSleep (attempt : ℕ) (lastErr : StartupError)
  | streamInfo
  | updateStream
  | addStream
  | temporalConnect (attempt : ℕ)
  | temporalSleep (attempt : ℕ) (lastErr : StartupError)
  /-- `js.subscribe`, with the subjects that are subscribed to afterwards. -/
  | subscribe (subject : String) (rest : List String)
  /-- Requests, activities or messages are handled. -/
  | serving
  /-- The end of `async with worker`, which waits for its activities. -/
  | shutdown
  /-- `nats_client.close`. -/
  | drain
  | exited
  | crashed (err : StartupError)
  deriving DecidableEq, Repr

/-- A process: its await, whether `_js` of `nats_client` and `_client` of `temporal.client` are
set, and the subjects its handlers are bound to. -/
structure Process where
  kind : ProcessKind
  await : Await
  js : Bool
  client : Bool
  subscriptions : List String

/-- The default of `connect` and of `get_client`. -/
def maxAttempts : ℕ := 10

namespace ProcessKind

/-- The first await of `lifespan`, of the worker's `_run` and of the consumer's. -/
def start : ProcessKind → Await
  | api | consumer => .checkTables
  | worker => .natsConnect 1

def afterTables : ProcessKind → Option Await
  | api => some (.temporalConnect 1)
  | worker => none
  | consumer => some (.natsConnect 1)

def afterConnect : ProcessKind → Option Await
  | api => none
  | worker => some (.temporalConnect 1)
  | consumer => some (.subscribe subjectReportTriaged [subjectQueueRouted])

def afterClient : ProcessKind → Option Await
  | api | worker => some .serving
  | consumer => none

end ProcessKind

def couldNotConnectNats (settings : Settings) (lastErr : StartupError) : StartupError :=
  ⟨.runtimeError, "could not connect to NATS at " ++ settings.natsUrl ++ ": " ++ lastErr.text⟩

def couldNotConnectTemporal (settings : Settings) (lastErr : StartupError) : StartupError :=
  ⟨.runtimeError, "could not connect to Temporal at " ++ settings.temporalHost ++ ": " ++
    lastErr.text⟩

namespace Process

/-- A process that is launched. -/
def launch (kind : ProcessKind) : Process := ⟨kind, kind.start, false, false, []⟩

def moveTo (x : Process) (await : Await) : Process := { x with await := await }

/-- An exception that nothing catches. The handlers end with the process. -/
def crash (x : Process) (err : StartupError) : Process :=
  { x with await := .crashed err, subscriptions := [] }

/-- What follows an await that has returned; `missing` is what `create_all` has found. -/
def returned (settings : Settings) (missing : Bool) (x : Process) : Option Process :=
  match x.await with
  | .checkTables => some (x.moveTo (.createTables missing))
  | .createTables _ => x.kind.afterTables.map x.moveTo
  | .natsConnect _ => some { x with await := .streamInfo, js := true }
  | .natsSleep attempt lastErr =>
    if attempt < maxAttempts then some (x.moveTo (.natsConnect (attempt + 1)))
    else some (x.crash (couldNotConnectNats settings lastErr))
  | .streamInfo => some (x.moveTo .updateStream)
  | .updateStream | .addStream => x.kind.afterConnect.map x.moveTo
  | .temporalConnect _ => x.kind.afterClient.map fun await =>
    { x with await := await, client := true }
  | .temporalSleep attempt lastErr =>
    if attempt < maxAttempts then some (x.moveTo (.temporalConnect (attempt + 1)))
    else some (x.crash (couldNotConnectTemporal settings lastErr))
  | .subscribe subject [] =>
    some { x with await := .serving, subscriptions := subject :: x.subscriptions }
  | .subscribe subject (next :: rest) =>
    some { x with await := .subscribe next rest, subscriptions := subject :: x.subscriptions }
  | .shutdown => some (x.moveTo .drain)
  | .drain => some { x with await := .exited, js := false, subscriptions := [] }
  | .serving | .exited | .crashed _ => none

/-- What follows an await that has raised. -/
def raised (x : Process) (err : StartupError) : Process :=
  match x.await with
  | .natsConnect attempt =>
    if err.kind = .unreachable then x.moveTo (.natsSleep attempt err) else x.crash err
  | .streamInfo | .updateStream =>
    if err.kind = .notFound then x.moveTo .addStream else x.crash err
  | .temporalConnect attempt =>
    if err.kind = .runtimeError then x.moveTo (.temporalSleep attempt err) else x.crash err
  | _ => x.crash err

/-- A signal to stop, once the process serves. -/
def stopped (x : Process) : Process :=
  match x.kind with
  | .api => { x with await := .exited, client := false }
  | .worker => x.moveTo .shutdown
  | .consumer => x.moveTo .drain

def servesRequests (x : Process) : Bool := x.kind = .api && x.await = .serving

def runsActivities (x : Process) : Bool :=
  x.kind = .worker && (x.await = .serving || x.await = .shutdown)

end Process

/-! ## The deployment -/

/-- A stream of the server. It can be brought into the configuration asked for if that leaves the
settings as they are which an update may not change. -/
structure StoredStream extends StreamConfig where
  updatable : Bool
  deriving DecidableEq, Repr

/-- The stream once it has been added or updated. -/
def ensuredStream (settings : Settings) : StoredStream :=
  { desiredStream settings.toNatsSettings with updatable := true }

/-- The tables, the stream of the name in the settings, whether another stream has its subjects,
the number of workflows started, the messages that were stored, each with the duplicate window the
stream had, and the processes. -/
structure Deployment where
  tables : Bool
  stream : Option StoredStream
  taken : Bool
  workflows : ℕ
  stored : List (String × ServerTime)
  processes : List Process

namespace Deployment

/-- No process of the deployment has been launched. The database may hold tables and the NATS
server any streams. -/
structure Fresh (d : Deployment) : Prop where
  workflows : d.workflows = 0
  stored : d.stored = []
  processes : d.processes = []

inductive Action
  | launch (kind : ProcessKind)
  /-- The servers answer the await of a process. -/
  | answer (p : ℕ)
  /-- The await fails, and what it asks for has been executed or not. -/
  | fault (p : ℕ) (executed : Bool) (err : StartupError)
  | signal (p : ℕ)
  | kill (p : ℕ)
  | loseStream
  /-- The API handles a `POST /reports`, up to the start of a workflow. -/
  | request (p : ℕ)
  /-- An activity of the worker publishes an event. -/
  | publish (p : ℕ) (subject : String)

/-- Some process is subscribed with the durable consumer of the subject. -/
def bound (d : Deployment) (subject : String) : Bool :=
  d.processes.any fun x => x.subscriptions.contains subject

/-- What the servers answer to the await of a process, if it waits for an answer. -/
def respond (settings : Settings) (d : Deployment) (await : Await) :
    Option (Except StartupError Unit) :=
  match await with
  | .checkTables | .natsConnect _ | .natsSleep _ _ | .temporalConnect _ | .temporalSleep _ _
  | .shutdown | .drain => some (.ok ())
  | .createTables missing =>
    if missing && d.tables then some (.error ⟨.other, "relation already exists"⟩)
    else some (.ok ())
  | .streamInfo =>
    match d.stream with
    | none => some (.error ⟨.notFound, "stream not found"⟩)
    | some _ => some (.ok ())
  | .updateStream =>
    match d.stream with
    | none => some (.error ⟨.notFound, "stream not found"⟩)
    | some stream =>
      if d.taken then some (.error ⟨.other, "subjects overlap with an existing stream"⟩)
      else if stream.updatable then some (.ok ())
      else some (.error
        ⟨.other, "stream configuration update can not change storage type"⟩)
  | .addStream =>
    if d.taken then some (.error ⟨.other, "subjects overlap with an existing stream"⟩)
    else
      match d.stream with
      | none => some (.ok ())
      | some stream =>
        if stream = ensuredStream settings then some (.ok ())
        else some (.error
          ⟨.other, "stream name already in use with a different configuration"⟩)
  | .subscribe subject _ =>
    match d.stream with
    | none => some (.error ⟨.notFound, "no stream matches the subject"⟩)
    | some stream =>
      if stream.subjects.contains subject then
        if d.bound subject then
          some (.error ⟨.other, "consumer is already bound to a subscription"⟩)
        else some (.ok ())
      else some (.error ⟨.notFound, "no stream matches the subject"⟩)
  | .serving | .exited | .crashed _ => none

/-- What the servers have done once they have executed what an await asks for. -/
def executed (settings : Settings) (d : Deployment) (await : Await) : Deployment :=
  match await with
  | .createTables missing => if missing then { d with tables := true } else d
  | .updateStream | .addStream =>
    { d with stream := some (ensuredStream settings) }
  | _ => d

def setProcess (d : Deployment) (p : ℕ) (x : Process) : Deployment :=
  { d with processes := d.processes.set p x }

/-- `js.publish`. Where there is no stream for the subject it raises, and nothing is stored. -/
def publish (d : Deployment) (subject : String) : Deployment :=
  match d.stream with
  | none => d
  | some stream =>
    if stream.subjects.contains subject then
      { d with stored := d.stored ++ [(subject, stream.duplicateWindow)] }
    else d

def answer (settings : Settings) (d : Deployment) (p : ℕ) (x : Process) : Option Deployment :=
  match d.respond settings x.await with
  | none => none
  | some (.ok _) =>
    (x.returned settings (!d.tables)).map fun y => (d.executed settings x.await).setProcess p y
  | some (.error err) => some (d.setProcess p (x.raised err))

/-- A failure of an await, other than an answer that there is no stream. -/
def fault (settings : Settings) (d : Deployment) (p : ℕ) (x : Process) (executed : Bool)
    (err : StartupError) : Option Deployment :=
  match d.respond settings x.await with
  | none => none
  | some response =>
    if err.kind = .notFound then none
    else if executed && response.isOk then
      some ((d.executed settings x.await).setProcess p (x.raised err))
    else some (d.setProcess p (x.raised err))

def step (settings : Settings) (d : Deployment) : Action → Option Deployment
  | .launch kind => some { d with processes := d.processes ++ [.launch kind] }
  | .answer p => (d.processes[p]?).bind fun x => d.answer settings p x
  | .fault p executed err => (d.processes[p]?).bind fun x => d.fault settings p x executed err
  | .signal p => (d.processes[p]?).bind fun x =>
    if x.await = .serving then some (d.setProcess p x.stopped) else none
  | .kill p => (d.processes[p]?).bind fun x =>
    some (d.setProcess p (x.crash ⟨.other, "killed"⟩))
  | .loseStream => some { d with stream := none }
  | .request p => (d.processes[p]?).bind fun x =>
    if x.servesRequests then some { d with workflows := d.workflows + 1 } else none
  | .publish p subject => (d.processes[p]?).bind fun x =>
    if x.runsActivities && 0 < d.workflows then
      -- Without a context `jetstream()` raises.
      if x.js then some (d.publish subject) else some d
    else none

def machine (settings : Settings) : Machine Deployment Action where
  init := Fresh
  step := step settings

/-! ## One step -/

/-- Where there is a stream, it has the configuration `connect` asks for. -/
def Ensured (settings : Settings) (d : Deployment) : Prop :=
  ∀ stream, d.stream = some stream → stream = ensuredStream settings

/-- What the servers keep. -/
structure Keeps (settings : Settings) (d d' : Deployment) : Prop where
  tables : d.tables = true → d'.tables = true
  ensured : d.Ensured settings → d'.Ensured settings

/-- How a process goes from one await to another. -/
inductive Moves (settings : Settings) (d d' : Deployment) (x : Process) : Process → Prop
  | returned {y : Process} (hrespond : d.respond settings x.await = some (.ok ()))
      (hreturned : x.returned settings (!d.tables) = some y)
      (htables : d'.tables = (d.executed settings x.await).tables)
      (hstream : d'.stream = (d.executed settings x.await).stream) : Moves settings d d' x y
  | raised {err : StartupError} (hstream : err.kind = .notFound →
      d'.stream = d.stream ∧ d.respond settings x.await = some (.error err)) :
      Moves settings d d' x (x.raised err)
  | stopped (hserving : x.await = .serving) : Moves settings d d' x x.stopped
  | killed (err : StartupError) : Moves settings d d' x (x.crash err)

variable {settings : Settings} {d d' : Deployment} {a : Action} {p : ℕ} {x y : Process}

theorem Keeps.refl (settings : Settings) (d : Deployment) : Keeps settings d d := ⟨id, id⟩

theorem keeps_executed (settings : Settings) (d : Deployment) (await : Await) :
    Keeps settings d (d.executed settings await) := by
  unfold executed
  split
  · split
    · exact ⟨fun _ => rfl, id⟩
    · exact .refl settings d
  · exact ⟨id, fun _ stream hstream => (Option.some.inj hstream).symm⟩
  · exact ⟨id, fun _ stream hstream => (Option.some.inj hstream).symm⟩
  · exact .refl settings d

@[simp] theorem executed_processes (settings : Settings) (d : Deployment) (await : Await) :
    (d.executed settings await).processes = d.processes := by
  unfold executed
  split <;> (try split) <;> rfl

@[simp] theorem executed_workflows (settings : Settings) (d : Deployment) (await : Await) :
    (d.executed settings await).workflows = d.workflows := by
  unfold executed
  split <;> (try split) <;> rfl

@[simp] theorem executed_taken (settings : Settings) (d : Deployment) (await : Await) :
    (d.executed settings await).taken = d.taken := by
  unfold executed
  split <;> (try split) <;> rfl

@[simp] theorem executed_stored (settings : Settings) (d : Deployment) (await : Await) :
    (d.executed settings await).stored = d.stored := by
  unfold executed
  split <;> (try split) <;> rfl

@[simp] theorem publish_processes (d : Deployment) (subject : String) :
    (d.publish subject).processes = d.processes := by
  unfold publish
  split <;> (try split) <;> rfl

@[simp] theorem publish_tables (d : Deployment) (subject : String) :
    (d.publish subject).tables = d.tables := by
  unfold publish
  split <;> (try split) <;> rfl

@[simp] theorem publish_stream (d : Deployment) (subject : String) :
    (d.publish subject).stream = d.stream := by
  unfold publish
  split <;> (try split) <;> rfl

@[simp] theorem publish_taken (d : Deployment) (subject : String) :
    (d.publish subject).taken = d.taken := by
  unfold publish
  split <;> (try split) <;> rfl

/-- A message that is stored is one for a subject of the stream. -/
theorem publish_cases (d : Deployment) (subject : String) :
    d.publish subject = d ∨ ∃ stream, d.stream = some stream ∧ subject ∈ stream.subjects ∧
      d.publish subject = { d with stored := d.stored ++ [(subject, stream.duplicateWindow)] } := by
  unfold publish
  split
  · exact .inl rfl
  · rename_i stream hstream
    split
    · rename_i hsubject
      exact .inr ⟨stream, hstream, List.contains_iff_mem.mp hsubject, rfl⟩
    · exact .inl rfl

/-- What a step does: it launches a process, moves one, or leaves them all where they are; then
the servers change at most by a start of a workflow, a message that is stored, or the loss of the
stream. -/
inductive Effect (settings : Settings) (d : Deployment) : Action → Deployment → Prop
  | launched (kind : ProcessKind) :
      Effect settings d (.launch kind) { d with processes := d.processes ++ [.launch kind] }
  | moved {a : Action} {p : ℕ} {x y : Process} {e : Deployment}
      (hx : d.processes[p]? = some x) (he : e = d ∨ e = d.executed settings x.await)
      (hmoves : Moves settings d (e.setProcess p y) x y) :
      Effect settings d a (e.setProcess p y)
  | lost : Effect settings d .loseStream { d with stream := none }
  | requested {p : ℕ} {x : Process} (hx : d.processes[p]? = some x)
      (hserves : x.servesRequests = true) :
      Effect settings d (.request p) { d with workflows := d.workflows + 1 }
  | published {p : ℕ} {subject : String} {x : Process} (hx : d.processes[p]? = some x)
      (hruns : x.runsActivities = true) (hworkflows : 0 < d.workflows) {d' : Deployment}
      (hpublish : d' = d ∨ d' = d.publish subject) : Effect settings d (.publish p subject) d'

theorem effect_of_step (h : d.step settings a = some d') : Effect settings d a d' := by
  cases a with
  | launch kind =>
    cases h
    exact .launched kind
  | answer p =>
    obtain ⟨x, hx, h⟩ := Option.bind_eq_some_iff.mp h
    unfold answer at h
    split at h
    · cases h
    · rename_i hrespond
      obtain ⟨y, hy, rfl⟩ := Option.map_eq_some_iff.mp h
      exact .moved hx (.inr rfl) (.returned hrespond hy rfl rfl)
    · rename_i err hrespond
      cases h
      exact .moved hx (.inl rfl) (.raised fun _ => ⟨rfl, hrespond⟩)
  | fault p executed err =>
    obtain ⟨x, hx, h⟩ := Option.bind_eq_some_iff.mp h
    unfold fault at h
    split at h
    · cases h
    · split at h
      · cases h
      · rename_i hkind
        split at h
        · cases h
          exact .moved hx (.inr rfl) (.raised fun hnot => absurd hnot hkind)
        · cases h
          exact .moved hx (.inl rfl) (.raised fun hnot => absurd hnot hkind)
  | signal p =>
    obtain ⟨x, hx, h⟩ := Option.bind_eq_some_iff.mp h
    split at h
    · rename_i hserving
      cases h
      exact .moved hx (.inl rfl) (.stopped hserving)
    · cases h
  | kill p =>
    obtain ⟨x, hx, h⟩ := Option.bind_eq_some_iff.mp h
    cases h
    exact .moved hx (.inl rfl) (.killed _)
  | loseStream =>
    cases h
    exact .lost
  | request p =>
    obtain ⟨x, hx, h⟩ := Option.bind_eq_some_iff.mp h
    split at h
    · rename_i hserves
      cases h
      exact .requested hx hserves
    · cases h
  | publish p subject =>
    obtain ⟨x, hx, h⟩ := Option.bind_eq_some_iff.mp h
    split at h
    · rename_i hguard
      simp only [Bool.and_eq_true, decide_eq_true_eq] at hguard
      split at h <;> cases h
      · exact .published hx hguard.1 hguard.2 (.inr rfl)
      · exact .published hx hguard.1 hguard.2 (.inl rfl)
    · cases h

theorem Effect.keeps (he : Effect settings d a d') : Keeps settings d d' := by
  cases he with
  | launched | requested => exact ⟨id, id⟩
  | @moved a p x y e hx he hmoves =>
    rcases he with rfl | rfl
    · exact ⟨id, id⟩
    · have hkeeps := keeps_executed settings d x.await
      exact ⟨hkeeps.tables, hkeeps.ensured⟩
  | lost => exact ⟨id, fun _ => nofun⟩
  | @published p subject x hx hruns hworkflows d' hpublish =>
    rcases hpublish with rfl | rfl
    · exact ⟨id, id⟩
    · exact ⟨fun htables => (publish_tables ..).trans htables, fun hensured stream hstream =>
        hensured stream ((publish_stream ..).symm.trans hstream)⟩

/-- Where a process of the next state comes from. -/
theorem Effect.process (he : Effect settings d a d') {j : ℕ} (hy : d'.processes[j]? = some y) :
    d.processes[j]? = some y ∨ (∃ kind, y = .launch kind) ∨
      ∃ x, d.processes[j]? = some x ∧ Moves settings d d' x y := by
  cases he with
  | launched kind =>
    exact (Slots.append_cases hy).imp_right fun hnew => .inl ⟨kind, hnew.2⟩
  | @moved a p x z e hx he hmoves =>
    have hprocesses : e.processes = d.processes := by
      rcases he with rfl | rfl
      · rfl
      · exact executed_processes ..
    simp only [setProcess, hprocesses] at hy
    rcases Slots.set_cases hy with ⟨rfl, rfl⟩ | ⟨-, hold⟩
    · exact .inr (.inr ⟨x, hx, hmoves⟩)
    · exact .inl hold
  | lost | requested => exact .inl hy
  | published hx hruns hworkflows hpublish =>
    rcases hpublish with rfl | rfl
    · exact .inl hy
    · exact .inl (by rwa [publish_processes] at hy)

end Deployment

/-! ## The awaits of `connect` -/

/-- An exception, as `connect` tells it apart. -/
def StartupError.ofNats (err : RaisedException) : StartupError :=
  ⟨match err.kind with
    | .unreachable => .unreachable
    | .notFound => .notFound
    | .other => .other, err.text⟩

/-- What an await of `connect` does, by the answers of one call. -/
def Await.reply (r : Replies) : Await → Option Reply
  | natsConnect attempt => some (r.connect attempt)
  | natsSleep attempt _ => some (r.sleep attempt)
  | streamInfo => some r.streamInfo
  | updateStream => some r.updateStream
  | addStream => some r.addStream
  | _ => none

namespace Process

/-- One await of `connect`, answered so. -/
def follow (settings : Settings) (r : Replies) (x : Process) : Process :=
  match x.await.reply r with
  | none => x
  | some (.ok _) => (x.returned settings false).getD x
  | some (.error err) => x.raised (.ofNats err)

variable {settings : Settings} {r : Replies} {x : Process}

/-- The process has ended with this exception. -/
def CrashedBy (x y : Process) (err : RaisedException) : Prop :=
  ∃ err', err'.text = err.text ∧ y = x.crash err'

theorem crashedBy_ofNats (x : Process) (err : RaisedException) :
    x.CrashedBy (x.crash (.ofNats err)) err := ⟨_, rfl, rfl⟩

theorem ofNats_kind {err : RaisedException} :
    ((StartupError.ofNats err).kind = .unreachable ↔ err.kind = .unreachable) ∧
    ((StartupError.ofNats err).kind = .notFound ↔ err.kind = .notFound) := by
  simp only [StartupError.ofNats]
  cases err.kind <;> simp

/-- The loop of `connect`, with a number of attempts left. -/
theorem follow_attempts (settings : Settings) (r : Replies) (x : Process) (attempt left : ℕ)
    (lastErr : Option RaisedException) (hleft : 0 < left)
    (hattempt : attempt + left = maxAttempts + 1) :
    ∃ n, match NatsClient.attempts settings.toNatsSettings r attempt lastErr left with
      | .ok _ => (follow settings r)^[n] (x.moveTo (.natsConnect attempt)) =
          { x with await := .streamInfo, js := true }
      | .error err =>
        x.CrashedBy ((follow settings r)^[n] (x.moveTo (.natsConnect attempt))) err := by
  induction left generalizing attempt lastErr with
  | zero => omega
  | succ left ih =>
    rw [NatsClient.attempts]
    cases hconnect : r.connect attempt with
    | ok u =>
      refine ⟨1, ?_⟩
      simp [follow, moveTo, Await.reply, hconnect, returned]
    | error err =>
      have hstep : follow settings r (x.moveTo (.natsConnect attempt)) =
          (x.moveTo (.natsConnect attempt)).raised (.ofNats err) := by
        simp [follow, moveTo, Await.reply, hconnect]
      dsimp only
      by_cases hkind : err.kind = .unreachable
      · rw [if_pos hkind]
        have hsleeps : follow settings r (x.moveTo (.natsConnect attempt)) =
            x.moveTo (.natsSleep attempt (.ofNats err)) := by
          rw [hstep]
          simp [raised, moveTo, ofNats_kind.1.mpr hkind]
        cases hsleep : r.sleep attempt with
        | error cancelled =>
          have hcrash : follow settings r (x.moveTo (.natsSleep attempt (.ofNats err))) =
              x.crash (.ofNats cancelled) := by
            simp [follow, moveTo, Await.reply, hsleep, raised, crash]
          refine ⟨2, ?_⟩
          rw [Function.iterate_succ_apply, hsleeps, Function.iterate_one, hcrash]
          exact crashedBy_ofNats x cancelled
        | ok u =>
          dsimp only
          have hnext : follow settings r (x.moveTo (.natsSleep attempt (.ofNats err))) =
              if attempt < maxAttempts then x.moveTo (.natsConnect (attempt + 1))
              else x.crash (couldNotConnectNats settings (.ofNats err)) := by
            simp only [follow, moveTo, Await.reply, hsleep, returned]
            split <;> rfl
          rcases Nat.eq_zero_or_pos left with rfl | hpos
          · refine ⟨2, couldNotConnectNats settings (.ofNats err), rfl, ?_⟩
            rw [Function.iterate_succ_apply, hsleeps, Function.iterate_one, hnext,
              if_neg (by omega)]
          · obtain ⟨n, hn⟩ := ih (attempt + 1) (some err) hpos (by omega)
            refine ⟨n + 2, ?_⟩
            rw [Function.iterate_add_apply, Function.iterate_succ_apply, hsleeps,
              Function.iterate_one, hnext, if_pos (by omega)]
            exact hn
      · rw [if_neg hkind]
        have hcrash : (x.moveTo (.natsConnect attempt)).raised (.ofNats err) =
            x.crash (.ofNats err) := by
          simp [raised, moveTo, crash, mt ofNats_kind.1.mp hkind]
        refine ⟨1, ?_⟩
        rw [Function.iterate_one, hstep, hcrash]
        exact crashedBy_ofNats x err

/-- The `except NotFoundError` of `connect`, from either of the awaits it is about. -/
theorem follow_addStream (settings : Settings) {next await : Await} {err : RaisedException}
    (hnext : x.kind.afterConnect = some next)
    (hawait : await = .streamInfo ∨ await = .updateStream)
    (hreply : await.reply r = some (.error err)) (js : ℕ) (c : NatsClient) :
    ∃ n, match NatsClient.addStream settings.toNatsSettings r js c err with
      | (.ok _, c') => (follow settings r)^[n] (x.moveTo await) = x.moveTo next ∧ c'.js = c.js
      | (.error err, c') =>
        x.CrashedBy ((follow settings r)^[n] (x.moveTo await)) err ∧ c'.js = c.js := by
  have hraised : follow settings r (x.moveTo await) = (x.moveTo await).raised (.ofNats err) := by
    rw [follow, moveTo, hreply]
  rw [NatsClient.addStream]
  by_cases hkind : err.kind = .notFound
  · have hadd : follow settings r (x.moveTo await) = x.moveTo .addStream := by
      rw [hraised]
      rcases hawait with rfl | rfl <;> simp [raised, moveTo, ofNats_kind.2.mpr hkind]
    refine ⟨2, ?_⟩
    rw [if_pos hkind, Function.iterate_succ_apply, hadd, Function.iterate_one]
    cases hreply : r.addStream with
    | ok u => simp [follow, moveTo, Await.reply, hreply, returned, hnext]
    | error err' =>
      have hcrash : follow settings r (x.moveTo .addStream) = x.crash (.ofNats err') := by
        simp [follow, moveTo, Await.reply, hreply, raised, crash]
      exact ⟨hcrash ▸ crashedBy_ofNats x err', rfl⟩
  · have hcrash : (x.moveTo await).raised (.ofNats err) = x.crash (.ofNats err) := by
      rcases hawait with rfl | rfl <;> simp [raised, moveTo, crash, mt ofNats_kind.2.mp hkind]
    refine ⟨1, ?_⟩
    rw [if_neg hkind, Function.iterate_one, hraised, hcrash]
    exact ⟨crashedBy_ofNats x err, rfl⟩

/-- The awaits after a connection has been made. -/
theorem follow_ensureStream (settings : Settings) (r : Replies) {next : Await}
    (hnext : x.kind.afterConnect = some next) (js : ℕ) (c : NatsClient) :
    ∃ n, match NatsClient.ensureStream settings.toNatsSettings r js c with
      | (.ok _, c') => (follow settings r)^[n] (x.moveTo .streamInfo) = x.moveTo next ∧
          c'.js = c.js
      | (.error err, c') =>
        x.CrashedBy ((follow settings r)^[n] (x.moveTo .streamInfo)) err ∧ c'.js = c.js := by
  rw [NatsClient.ensureStream]
  cases hinfo : r.streamInfo with
  | error err => exact follow_addStream settings hnext (.inl rfl) (by rw [Await.reply, hinfo]) js c
  | ok u =>
    have hfound : follow settings r (x.moveTo .streamInfo) = x.moveTo .updateStream := by
      simp [follow, moveTo, Await.reply, hinfo, returned]
    cases hupdate : r.updateStream with
    | error err =>
      obtain ⟨n, hn⟩ := follow_addStream settings hnext (.inr rfl)
        (by rw [Await.reply, hupdate]) js c
      refine ⟨n + 1, ?_⟩
      rw [Function.iterate_succ_apply, hfound]
      exact hn
    | ok u' =>
      refine ⟨2, ?_⟩
      rw [Function.iterate_succ_apply, hfound, Function.iterate_one]
      simp [follow, moveTo, Await.reply, hupdate, returned, hnext]

/-- **The awaits of a process are those of `connect`.** Answered by the answers of one call, a
process that has not connected yet goes on to what follows `connect` if the call returns, and
ends with its exception if it raises; and its context is kept exactly if that of the module is. -/
theorem connect_eq_follow {next : Await} (hnext : x.kind.afterConnect = some next)
    (hawait : x.await = .natsConnect 1) (hjs : x.js = false) :
    ∃ n, match NatsClient.connect settings.toNatsSettings maxAttempts r .initial with
      | (.context _, c) => (follow settings r)^[n] x = { x with await := next, js := true } ∧
          c.js.isSome = true
      | (.raised err, c) => ∃ y, (y = x ∨ y = { x with js := true }) ∧ y.js = c.js.isSome ∧
          y.CrashedBy ((follow settings r)^[n] x) err
      | (.returned, _) => False := by
  obtain ⟨n, hn⟩ := follow_attempts settings r x 1 maxAttempts none (by decide) (Nat.add_comm ..)
  have hx : x.moveTo (.natsConnect 1) = x := by
    rw [← hawait]
    rfl
  rw [hx] at hn
  rw [NatsClient.connect]
  simp only [NatsClient.initial, Int.toNat_natCast]
  split at hn
  · rename_i hattempts
    rw [hattempts]
    obtain ⟨m, hm⟩ := follow_ensureStream settings r (x := { x with js := true }) hnext 0
      ⟨some 0, some 0, 1, []⟩
    refine ⟨m + n, ?_⟩
    rw [Function.iterate_add_apply, hn]
    dsimp only
    split at hm
    · rename_i hensure
      rw [hensure]
      exact ⟨hm.1, by rw [hm.2]; rfl⟩
    · rename_i err c' hensure
      rw [hensure]
      exact ⟨_, .inr rfl, by rw [hm.2]; rfl, hm.1⟩
  · rename_i err hattempts
    rw [hattempts]
    exact ⟨n, x, .inl rfl, hjs, hn⟩

end Process

end ReportTriage

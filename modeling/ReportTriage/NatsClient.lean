import ReportTriage.Lib.Machine
import ReportTriage.Schema

/-!
# The connection to NATS

`nats_client` keeps a connection and its JetStream context in two globals of the module. A
`connect` that finds a context returns it. One that finds none connects, sets both globals, and
then makes up to three remote calls that bring the stream into its desired form, any of which may
raise: the globals are set by then, and the next `connect` finds a context.

The calls of a process come one after another. A context is known by the number of its
connection, and `applied` records the remote calls that have brought a stream into a form.

## Main definitions

* `NatsClient.call` — `connect`, `close` and `jetstream`; `NatsClient.machine`, their runs.
* `NatsClient.Honest` — a context is only ever returned with its stream ensured.
* `NatsClient.Settled` — a connection, once it is made, has its stream ensured.
* `NatsClient.connected_is_ensured` — the calls of a run are honest exactly if they are settled.
-/

namespace ReportTriage

/-- The exceptions that `connect` tells apart. -/
inductive ExceptionKind
  /-- `NoServersError`, or an `OSError`. -/
  | unreachable
  /-- The `NotFoundError` of JetStream. -/
  | notFound
  | other
  deriving DecidableEq, Repr

structure RaisedException where
  kind : ExceptionKind
  text : String
  deriving DecidableEq, Repr

/-- What an awaited call does. -/
abbrev Reply : Type := Except RaisedException Unit

structure NatsSettings where
  natsUrl : String := "nats://localhost:4222"
  natsStream : String := "report-triage"

structure StreamConfig where
  name : String
  subjects : List String
  duplicateWindow : ServerTime
  deriving DecidableEq, Repr

def streamSubjects : List String := [subjectReportTriaged, subjectQueueRouted]

/-- The configuration `connect` asks for. -/
def desiredStream (settings : NatsSettings) : StreamConfig :=
  ⟨settings.natsStream, streamSubjects, duplicateWindow⟩

/-- The awaits of one `connect`. Attempts to connect are numbered from 1, and after one that
fails the task may be cancelled in its sleep. -/
structure Replies where
  connect : ℕ → Reply
  sleep : ℕ → Reply
  streamInfo : Reply
  updateStream : Reply
  addStream : Reply

/-- One of the attempts makes a connection, and those before it may be followed by another. -/
def Replies.Connects (r : Replies) (maxAttempts : ℤ) : Prop :=
  ∃ n : ℕ, (n : ℤ) < maxAttempts ∧ r.connect (n + 1) = .ok () ∧
    ∀ k < n, r.sleep (k + 1) = .ok () ∧
      ∃ err : RaisedException, r.connect (k + 1) = .error err ∧ err.kind = .unreachable

/-- The stream is updated, or it is not found and is created. -/
def Replies.Ensures (r : Replies) : Prop :=
  (r.streamInfo = .ok () ∧ r.updateStream = .ok ()) ∨
    r.addStream = .ok () ∧ ∃ err : RaisedException, err.kind = .notFound ∧
      (r.streamInfo = .error err ∨ r.streamInfo = .ok () ∧ r.updateStream = .error err)

/-- The globals `_nc` and `_js`, the number of connections made so far, and the configurations
that a call has brought into force, with the connection it was made on. -/
structure NatsClient where
  nc : Option ℕ
  js : Option ℕ
  made : ℕ
  applied : List (ℕ × StreamConfig)

namespace NatsClient

/-- The module as it is imported. -/
def initial : NatsClient := ⟨none, none, 0, []⟩

inductive Call
  | connect (maxAttempts : ℤ) (replies : Replies)
  | close (drain : Reply)
  | jetstream

inductive Outcome
  | context (js : ℕ)
  | returned
  | raised (err : RaisedException)
  deriving DecidableEq, Repr

/-! ## The calls -/

def couldNotConnect (settings : NatsSettings) (lastErr : Option RaisedException) :
    RaisedException :=
  ⟨.other, "could not connect to NATS at " ++ settings.natsUrl ++ ": " ++
    (lastErr.map RaisedException.text).getD "None"⟩

/-- The loop of `connect`, with a number of attempts left. -/
def attempts (settings : NatsSettings) (r : Replies) (attempt : ℕ)
    (lastErr : Option RaisedException) : ℕ → Reply
  | 0 => .error (couldNotConnect settings lastErr)
  | left + 1 =>
    match r.connect attempt with
    | .ok () => .ok ()
    | .error err =>
      if err.kind = .unreachable then
        match r.sleep attempt with
        | .ok () => attempts settings r (attempt + 1) (some err) left
        | .error cancelled => .error cancelled
      else .error err

/-- The `except NotFoundError` of `connect`. -/
def addStream (settings : NatsSettings) (r : Replies) (js : ℕ) (c : NatsClient)
    (err : RaisedException) : Reply × NatsClient :=
  if err.kind = .notFound then
    match r.addStream with
    | .ok () => (.ok (), { c with applied := (js, desiredStream settings) :: c.applied })
    | .error err => (.error err, c)
  else (.error err, c)

/-- The last statement of `connect`, with its `try`. -/
def ensureStream (settings : NatsSettings) (r : Replies) (js : ℕ) (c : NatsClient) :
    Reply × NatsClient :=
  match r.streamInfo with
  | .error err => addStream settings r js c err
  | .ok () =>
    match r.updateStream with
    | .error err => addStream settings r js c err
    | .ok () => (.ok (), { c with applied := (js, desiredStream settings) :: c.applied })

def connect (settings : NatsSettings) (maxAttempts : ℤ) (r : Replies) (c : NatsClient) :
    Outcome × NatsClient :=
  match c.js with
  | some js => (.context js, c)
  | none =>
    match attempts settings r 1 none maxAttempts.toNat with
    | .error err => (.raised err, c)
    | .ok () =>
      match ensureStream settings r c.made
          { c with nc := some c.made, js := some c.made, made := c.made + 1 } with
      | (.ok (), c') => (.context c.made, c')
      | (.error err, c') => (.raised err, c')

def close (drain : Reply) (c : NatsClient) : Outcome × NatsClient :=
  match c.nc, drain with
  | some _, .error err => (.raised err, c)
  | _, _ => (.returned, { c with nc := none, js := none })

def jetstream (c : NatsClient) : Outcome × NatsClient :=
  match c.js with
  | none => (.raised ⟨.other, "NATS JetStream not connected; call connect() first"⟩, c)
  | some js => (.context js, c)

def call (settings : NatsSettings) (c : NatsClient) : Call → Outcome × NatsClient
  | .connect maxAttempts replies => connect settings maxAttempts replies c
  | .close drain => close drain c
  | .jetstream => jetstream c

/-- The calls of one process. -/
def machine (settings : NatsSettings) : Machine NatsClient Call where
  init c := c = initial
  step c a := some (c.call settings a).2

/-! ## What is asked of a call -/

/-- A context is returned only with the stream ensured on its connection, and a `connect` that
raises leaves both globals as they were, so that the next one does not return early. -/
structure Honest (settings : NatsSettings) (c : NatsClient) (a : Call) : Prop where
  ensured : ∀ js, (c.call settings a).1 = .context js →
    (js, desiredStream settings) ∈ (c.call settings a).2.applied
  restored : ∀ maxAttempts replies err, a = .connect maxAttempts replies →
    (c.call settings a).1 = .raised err → (c.call settings a).2.nc = c.nc ∧
      (c.call settings a).2.js = c.js ∧ (c.call settings a).2.js = none

/-- A `connect` that makes a connection ensures the stream. -/
def Settled (c : NatsClient) : Call → Prop
  | .connect maxAttempts replies =>
    c.js = none → replies.Connects maxAttempts → replies.Ensures
  | _ => True

/-! ### The loop and the stream -/

variable {settings : NatsSettings} {r : Replies} {c : NatsClient} {a : Call}

theorem attempts_eq_ok {attempt left : ℕ} {lastErr : Option RaisedException} :
    attempts settings r attempt lastErr left = .ok () ↔
      ∃ n < left, r.connect (n + attempt) = .ok () ∧
        ∀ k < n, r.sleep (k + attempt) = .ok () ∧
          ∃ err : RaisedException, r.connect (k + attempt) = .error err ∧
            err.kind = .unreachable := by
  induction left generalizing attempt lastErr with
  | zero => simp [attempts]
  | succ left ih =>
    rw [attempts]
    constructor
    · intro h
      split at h
      · rename_i hconnect
        exact ⟨0, by omega, by rwa [Nat.zero_add], nofun⟩
      · rename_i err hconnect
        split at h
        · rename_i hkind
          split at h
          · rename_i hsleep
            obtain ⟨n, hn, hok, hbefore⟩ := ih.mp h
            refine ⟨n + 1, by omega, by rwa [Nat.add_right_comm], ?_⟩
            intro k hk
            cases k with
            | zero =>
              rw [Nat.zero_add]
              exact ⟨hsleep, err, hconnect, hkind⟩
            | succ k =>
              rw [Nat.add_right_comm]
              exact hbefore k (by omega)
          · cases h
        · cases h
    · rintro ⟨n, hn, hok, hbefore⟩
      cases n with
      | zero =>
        rw [Nat.zero_add] at hok
        rw [hok]
      | succ n =>
        obtain ⟨hsleep, err, hconnect, hkind⟩ := hbefore 0 (by omega)
        rw [Nat.zero_add] at hsleep hconnect
        rw [hconnect]
        dsimp only
        rw [if_pos hkind, hsleep]
        dsimp only
        refine ih.mpr ⟨n, by omega, by rwa [Nat.add_right_comm] at hok, ?_⟩
        intro k hk
        have hnext := hbefore (k + 1) (by omega)
        rwa [Nat.add_right_comm] at hnext

theorem connects_iff (settings : NatsSettings) {maxAttempts : ℤ} :
    attempts settings r 1 none maxAttempts.toNat = .ok () ↔ r.Connects maxAttempts := by
  rw [attempts_eq_ok, Replies.Connects]
  simp only [Int.lt_toNat]

theorem addStream_cases (js : ℕ) (err : RaisedException) :
    ((err.kind = .notFound ∧ r.addStream = .ok ()) ∧ addStream settings r js c err =
      (.ok (), { c with applied := (js, desiredStream settings) :: c.applied })) ∨
    (¬ (err.kind = .notFound ∧ r.addStream = .ok ()) ∧
      ∃ err', addStream settings r js c err = (.error err', c)) := by
  rw [addStream]
  by_cases hkind : err.kind = .notFound
  · rw [if_pos hkind]
    cases hadd : r.addStream with
    | ok _ => exact .inl ⟨⟨hkind, rfl⟩, rfl⟩
    | error err' => exact .inr ⟨nofun, err', rfl⟩
  · rw [if_neg hkind]
    exact .inr ⟨fun h => hkind h.1, err, rfl⟩

/-- Either the stream is ensured, and that is on record, or an exception is raised and nothing
has changed. -/
theorem ensureStream_cases (settings : NatsSettings) (r : Replies) (js : ℕ) (c : NatsClient) :
    (r.Ensures ∧ ensureStream settings r js c =
      (.ok (), { c with applied := (js, desiredStream settings) :: c.applied })) ∨
    (¬ r.Ensures ∧ ∃ err, ensureStream settings r js c = (.error err, c)) := by
  rw [ensureStream, Replies.Ensures]
  cases hinfo : r.streamInfo with
  | error err =>
    refine (addStream_cases js err).imp (And.imp_left ?_) (And.imp_left (mt ?_))
    · intro h
      exact .inr ⟨h.2, err, h.1, .inl rfl⟩
    · rintro (⟨h, -⟩ | ⟨hadd, err', hkind, h | ⟨h, -⟩⟩)
      · cases h
      · cases h
        exact ⟨hkind, hadd⟩
      · cases h
  | ok _ =>
    cases hupdate : r.updateStream with
    | error err =>
      refine (addStream_cases js err).imp (And.imp_left ?_) (And.imp_left (mt ?_))
      · intro h
        exact .inr ⟨h.2, err, h.1, .inr ⟨rfl, rfl⟩⟩
      · rintro (⟨-, h⟩ | ⟨hadd, err', hkind, h | ⟨-, h⟩⟩)
        · cases h
        · cases h
        · cases h
          exact ⟨hkind, hadd⟩
    | ok _ => exact .inl ⟨.inl ⟨rfl, rfl⟩, rfl⟩

/-! ### One call -/

/-- The context kept has its stream ensured. -/
def Ensured (settings : NatsSettings) (c : NatsClient) : Prop :=
  ∀ js, c.js = some js → (js, desiredStream settings) ∈ c.applied

/-- What a `connect` does: it returns early; or it makes no connection; or it does, and ensures
the stream; or it does, keeps the context, and raises. -/
theorem connect_cases (settings : NatsSettings) (maxAttempts : ℤ) (r : Replies) (c : NatsClient) :
    (∃ js, c.js = some js ∧ c.connect settings maxAttempts r = (.context js, c)) ∨
    (c.js = none ∧ ¬ r.Connects maxAttempts ∧
      ∃ err, c.connect settings maxAttempts r = (.raised err, c)) ∨
    (c.js = none ∧ r.Connects maxAttempts ∧ r.Ensures ∧
      c.connect settings maxAttempts r = (.context c.made, ⟨some c.made, some c.made, c.made + 1,
        (c.made, desiredStream settings) :: c.applied⟩)) ∨
    (c.js = none ∧ r.Connects maxAttempts ∧ ¬ r.Ensures ∧
      ∃ err, c.connect settings maxAttempts r =
        (.raised err, ⟨some c.made, some c.made, c.made + 1, c.applied⟩)) := by
  rw [connect]
  cases hjs : c.js with
  | some js => exact .inl ⟨js, rfl, rfl⟩
  | none =>
    refine .inr ?_
    dsimp only
    rw [← connects_iff settings]
    cases hattempts : attempts settings r 1 none maxAttempts.toNat with
    | error err => exact .inl ⟨rfl, nofun, err, rfl⟩
    | ok _ =>
      refine .inr ?_
      dsimp only
      rcases ensureStream_cases settings r c.made
        { c with nc := some c.made, js := some c.made, made := c.made + 1 } with
        ⟨hensures, heq⟩ | ⟨hensures, err, heq⟩
      · rw [heq]
        exact .inl ⟨rfl, rfl, hensures, rfl⟩
      · rw [heq]
        exact .inr ⟨rfl, rfl, hensures, err, rfl⟩

theorem honest_of_settled (hI : Ensured settings c) (ha : c.Settled a) : Honest settings c a := by
  cases a with
  | connect maxAttempts r =>
    rcases connect_cases settings maxAttempts r c with ⟨js, hjs, heq⟩ | ⟨hjs, -, err, heq⟩ |
      ⟨hjs, -, -, heq⟩ | ⟨hjs, hconnects, hnot, -⟩
    · refine ⟨?_, ?_⟩ <;> rw [call, heq]
      · intro js' h
        cases h
        exact hI js hjs
      · intro _ _ _ _ hraised
        cases hraised
    · refine ⟨?_, ?_⟩ <;> rw [call, heq]
      · nofun
      · exact fun _ _ _ _ _ => ⟨rfl, rfl, hjs⟩
    · refine ⟨?_, ?_⟩ <;> rw [call, heq]
      · intro js h
        cases h
        exact List.mem_cons_self
      · intro _ _ _ _ hraised
        cases hraised
    · exact absurd (ha hjs hconnects) hnot
  | close drain =>
    constructor
    · intro js h
      simp only [call, close] at h
      split at h <;> cases h
    · intro _ _ _ hconnect
      cases hconnect
  | jetstream =>
    constructor
    · intro js h
      simp only [call, jetstream] at h ⊢
      split at h
      · cases h
      · rename_i hjs
        cases h
        exact hI js hjs
    · intro _ _ _ hconnect
      cases hconnect

theorem settled_of_honest (ha : Honest settings c a) : c.Settled a := by
  cases a with
  | connect maxAttempts r =>
    intro hjs hconnects
    rcases connect_cases settings maxAttempts r c with ⟨js, hjs', -⟩ | ⟨-, hnot, -⟩ |
      ⟨-, -, hensures, -⟩ | ⟨-, -, -, err, heq⟩
    · rw [hjs] at hjs'
      cases hjs'
    · exact absurd hconnects hnot
    · exact hensures
    · -- The context is kept although the call has raised.
      have hraised : (c.call settings (.connect maxAttempts r)).1 = .raised err := by
        rw [call, heq]
      obtain ⟨-, -, hnone⟩ := ha.restored maxAttempts r err rfl hraised
      rw [call, heq] at hnone
      cases hnone
  | close drain => trivial
  | jetstream => trivial

theorem ensured_call (hI : Ensured settings c) (ha : c.Settled a) :
    Ensured settings (c.call settings a).2 := by
  cases a with
  | connect maxAttempts r =>
    rcases connect_cases settings maxAttempts r c with ⟨js, -, heq⟩ | ⟨-, -, err, heq⟩ |
      ⟨-, -, -, heq⟩ | ⟨hjs, hconnects, hnot, -⟩
    · rw [call, heq]
      exact hI
    · rw [call, heq]
      exact hI
    · rw [call, heq]
      intro js h
      cases h
      exact List.mem_cons_self
    · exact absurd (ha hjs hconnects) hnot
  | close drain =>
    simp only [call, close]
    split
    · exact hI
    · nofun
  | jetstream =>
    simp only [call, jetstream]
    split <;> exact hI

/-! ## Runs -/

/-- **A connected context implies an ensured stream.** In every run of `connect`, `close` and
`jetstream`, whatever any of the remote calls does: all calls return a context only with its
stream ensured, and restore the module if they raise, if and only if every `connect` that makes a
connection goes on to update the stream, or to create the one that is not found. -/
theorem connected_is_ensured {l : List (NatsClient × Call)}
    (h : (machine settings).Trace initial l c) :
    (∀ p ∈ l, Honest settings p.1 p.2) ↔ ∀ p ∈ l, Settled p.1 p.2 := by
  refine h.forall_iff (I := Ensured settings) nofun ?_ ?_
  · intro c a hI
    exact ⟨settled_of_honest, honest_of_settled hI⟩
  · intro c a c' hI ha hs
    cases hs
    exact ensured_call hI ha

/-- The second attempt connects, and there is no stream yet. -/
def Sample.firstStart : Replies where
  connect n := if n = 1 then .error ⟨.unreachable, "no servers available"⟩ else .ok ()
  sleep _ := .ok ()
  streamInfo := .error ⟨.notFound, "stream not found"⟩
  updateStream := .ok ()
  addStream := .ok ()

theorem connected_is_ensured_firstStart :
    Honest {} initial (.connect 10 Sample.firstStart) ∧
      (initial.call {} (.connect 10 Sample.firstStart)).1 = .context 0 := by
  have htrace : (machine {}).Trace initial
      ([] ++ [(initial, .connect 10 Sample.firstStart)]) _ := .snoc .nil rfl
  have hsettled : Settled initial (.connect 10 Sample.firstStart) :=
    fun _ _ => .inr ⟨rfl, _, rfl, .inl rfl⟩
  refine ⟨(connected_is_ensured htrace).mpr ?_ (initial, _) (by simp), by decide⟩
  simpa using hsettled

/-- The first request for the stream times out. -/
def Sample.timeout : Replies where
  connect _ := .ok ()
  sleep _ := .ok ()
  streamInfo := .error ⟨.other, "nats: timeout"⟩
  updateStream := .ok ()
  addStream := .ok ()

/-- The `connect` raises and keeps its context; the next one, and `jetstream`, return it, with no
stream ensured. -/
theorem connected_is_ensured_timeout :
    let a : Call := .connect 10 Sample.timeout
    let c := (initial.call {} a).2
    (machine {}).Trace initial [(initial, a)] c ∧
      (initial.call {} a).1 = .raised ⟨.other, "nats: timeout"⟩ ∧
      (c.call {} a).1 = .context 0 ∧
      (c.call {} .jetstream).1 = .context 0 ∧
      c.applied = [] ∧ ¬ Honest {} initial a ∧ ¬ Honest {} c a := by
  refine ⟨.snoc (l := []) .nil rfl, by decide, by decide, by decide, by decide, ?_, ?_⟩
  · intro h
    exact absurd (h.restored 10 _ _ rfl rfl).2.2 (by decide)
  · intro h
    exact absurd (h.ensured 0 (by decide)) (by decide)

end NatsClient

end ReportTriage

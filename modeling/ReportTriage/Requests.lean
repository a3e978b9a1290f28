import ReportTriage.Lib.Slots
import ReportTriage.Storage

/-!
# Requests of characters

A body and a header of characters alone are what `Payloads` validates and the system takes. On
them the endpoint of code points does what these do: it accepts the same requests, stores the
same of them, and carries one from its first await to where the system can carry it. What the
system leaves open, a statement that fails, is here the value that is refused.

## Main definitions

* `validateBody_json` — the two validations agree.
* `create_path` — a request of the system comes to where this endpoint comes.
-/

namespace ReportTriage

/-! ## Validation -/

/-- A validated request of characters. -/
def ReportPayload.accepted (p : ReportPayload) : AcceptedRequest :=
  ⟨pyText p.reporterId, p.targetType, pyText p.targetId, p.reasonCode, pyText p.description,
    p.sourceChannel, jsonEntries p.metadata⟩

namespace JsonVal

theorem checkString_json (loc : String) (v : PyVal) :
    checkString loc v.json = pyText <$> ReportTriage.checkString loc v := by
  cases v <;> rw [PyVal.json] <;> rfl

theorem checkDict_json (loc : String) (v : PyVal) :
    checkDict loc v.json = jsonEntries <$> ReportTriage.checkDict loc v := by
  cases v <;> rw [PyVal.json] <;> rfl

theorem checkLiteral_json (allowed : List String) (loc : String) (v : PyVal) :
    checkLiteral allowed loc v.json = ReportTriage.checkLiteral allowed loc v := by
  cases v with
  | str s =>
    rw [PyVal.json, checkLiteral, ReportTriage.checkLiteral]
    cases hfind : allowed.attach.find? fun t => pyText t.val = pyText s with
    | some t =>
      have heq : t.val = s := pyText_injective (by simpa using List.find?_some hfind)
      subst heq
      rw [dif_pos t.2]
    | none =>
      have hnot : s ∉ allowed := by
        intro h
        simpa using List.find?_eq_none.mp hfind ⟨s, h⟩ (List.mem_attach ..)
      rw [dif_neg hnot]
  | _ => rw [PyVal.json]; rfl

theorem strip_pyText (s : String) : strip (pyText s) = pyText (ReportTriage.strip s) := by
  have hdrop : ∀ l : List Char, (l.map CodePoint.char).dropWhile isSpacePoint =
      (l.dropWhile isSpace).map .char := fun l => List.dropWhile_map ..
  rw [strip, ReportTriage.strip, pyText, pyText, String.toList_ofList, hdrop, ← List.map_reverse,
    hdrop, ← List.map_reverse]

theorem nonEmptyDescription_json (loc : String) (v : PyVal) :
    nonEmptyDescription loc v.json = pyText <$> ReportTriage.nonEmptyDescription loc v := by
  have hempty : ∀ s : String, pyText s = [] ↔ s = "" := by
    intro s
    rw [pyText, List.map_eq_nil_iff, String.toList_eq_nil_iff]
  rw [nonEmptyDescription, ReportTriage.nonEmptyDescription, checkString_json]
  cases ReportTriage.checkString loc v with
  | errors first rest => rfl
  | ok s =>
    rw [Validated.map_ok, Validated.andThen_ok, strip_pyText]
    simp only [hempty]
    split <;> rfl

theorem required_json {α β : Type} {g : α → β} {check : String → JsonVal → Checked β}
    {check' : String → PyVal → Checked α} (h : ∀ loc v, check loc v.json = g <$> check' loc v)
    (fields : Metadata) (loc : String) :
    required (jsonEntries fields) loc check = g <$> ReportTriage.required fields loc check' := by
  rw [required, ReportTriage.required, lookup_jsonEntries]
  cases fields.get loc with
  | none => rfl
  | some v => exact h loc v

theorem optional_json {α β : Type} {g : α → β} {check : String → JsonVal → Checked β}
    {check' : String → PyVal → Checked α} (h : ∀ loc v, check loc v.json = g <$> check' loc v)
    (fields : Metadata) (loc : String) (default : α) :
    optional (jsonEntries fields) loc (g default) check =
      g <$> ReportTriage.optional fields loc default check' := by
  rw [optional, ReportTriage.optional, lookup_jsonEntries]
  cases fields.get loc with
  | none => rfl
  | some v => exact h loc v

end JsonVal

theorem validateBody_json (body : PyVal) :
    validateBody body.json = ReportPayload.accepted <$> validateReportCreateRequest body := by
  cases body with
  | dict fields =>
    have hliteral : ∀ (allowed : List String) (loc : String) (v : PyVal),
        JsonVal.checkLiteral allowed loc v.json = id <$> checkLiteral allowed loc v := by
      intro allowed loc v
      rw [JsonVal.checkLiteral_json, id_map]
    have hmetadata := JsonVal.optional_json JsonVal.checkDict_json fields "metadata" []
    rw [jsonEntries] at hmetadata
    rw [PyVal.json, validateBody, validateReportCreateRequest, validateFields, hmetadata]
    simp only [JsonVal.required_json JsonVal.checkString_json,
      JsonVal.required_json (hliteral _), JsonVal.required_json JsonVal.nonEmptyDescription_json]
    simp only [map_seq, seq_map_assoc, ← comp_map]
    rfl
  | _ => rw [PyVal.json]; rfl

/-! ## The row -/

section
variable [PostgresLimits] {p : ReportPayload} {key : Option String} {token : ℕ} {now : Time}

/-- No spaces are cut from the key, as there are none at the end of a header. -/
def Uncut (key : Option String) : Prop := ∀ k ∈ key, cutSpaces 64 k = k

/-- A storable request is stored as the system stores it. -/
theorem insertedRow_accepted (h : Storable p.accepted (key.map pyText)) (hkey : Uncut key) :
    insertedRow p.accepted (newReportId token) (key.map pyText) now =
      some (createReport p.request.stored (newReportId token) key now) := by
  have hrequest : storedRequest p.accepted = some p.request.stored := by
    rw [storedRequest_eq]
    simp only [ReportPayload.accepted, varcharValue_pyText h.reporterId,
      varcharValue_pyText h.targetId, textValue_pyText h.description,
      jsonbValue_jsonEntries h.metadata]
    rfl
  have hstored : storedKey (key.map pyText) = some key := by
    cases key with
    | none => rfl
    | some k =>
      rw [Option.map_some, storedKey, varcharValue_pyText (h.key (pyText k) rfl), hkey k rfl,
        Option.map_some]
  rw [insertedRow_eq, hrequest, hstored]
  rfl

theorem eq_of_insertedRow {row : Report} (hkey : Uncut key)
    (h : insertedRow p.accepted (newReportId token) (key.map pyText) now = some row) :
    row = createReport p.request.stored (newReportId token) key now := by
  have hstorable : Storable p.accepted (key.map pyText) :=
    (isSome_insertedRow token now).mp (Option.isSome_iff_exists.mpr ⟨row, h⟩)
  rw [insertedRow_accepted hstorable hkey] at h
  exact (Option.some.inj h).symm

end

/-! ## The path -/

/-- Where a request of the system is after it. -/
def CreateOutcome.pc : CreateOutcome → RequestPc
  | .replayed existing => .done (.created existing.id existing.status)
  | .committed row => .start row.id none
  | .integrityError | .dataError => .done .serverError

section
variable [UnicodeData] {s : System} {q : ℕ} {payload : ReportCreateRequest} {key : Option String}
  {id : String} {now : Time}

/-- A request that fails before its start call. -/
theorem fail_path {e : Endpoint} {pc : RequestPc} (hq : s.requests[q]? = some ⟨e, pc⟩)
    (hpc : pc.isBeforeStart = true) : ∃ s', System.machine.Path (fun _ _ => True) s s' ∧
      s'.requests[q]? = some ⟨e, .done .serverError⟩ := by
  refine ⟨s.setPc q (.done .serverError), .single (a := .fail q) trivial ?_,
    Slots.modify_self hq⟩
  simp only [System.machine, System.step, System.fail, hq, hpc, if_true]

/-- A request whose row meets none, be it committed or not, has it committed. -/
theorem commit_path (hq : s.requests[q]? = some ⟨.create payload key, .insert⟩)
    (hcollides : ¬ ∃ other ∈ s.reports, other.Collides (createReport payload.stored id key now))
    (hfree : ∀ r ∈ s.requests, ¬ r.pc.Blocks (createReport payload.stored id key now)) :
    ∃ s', System.machine.Path (fun _ _ => True) s s' ∧
      s'.requests[q]? =
        some ⟨.create payload key, .start (createReport payload.stored id key now).id none⟩ := by
  have hfree' : ¬ ∃ r ∈ s.requests, r.pc.Blocks (createReport payload.stored id key now) := by
    rintro ⟨r, hr, hblocks⟩
    exact hfree r hr hblocks
  let row := createReport payload.stored id key now
  let t := s.setPc q (.commit row)
  let u : System := { t.setPc q (.start row.id none) with
    reports := t.reports ++ [row], history := .inserted q row.id :: t.history }
  have hinsert : System.machine.step s (.insert q id now) = some t := by
    simp only [System.machine, System.step, System.insert, hq, if_neg hcollides, if_neg hfree', t,
      row]
  have ht : t.requests[q]? = some ⟨.create payload key, .commit row⟩ := Slots.modify_self hq
  have hcommit : System.machine.step t (.commitInsert q false) = some u := by
    simp only [System.machine, System.step, System.commitInsert, ht]
    rfl
  exact ⟨u, .tail (.single trivial hinsert) trivial hcommit, Slots.modify_self ht⟩

/-- A request whose row meets a committed one answers with the row of its key, if there is one. -/
theorem conflict_path (hq : s.requests[q]? = some ⟨.create payload key, .insert⟩)
    (hcollides : ∃ other ∈ s.reports, other.Collides (createReport payload.stored id key now)) :
    ∃ s', System.machine.Path (fun _ _ => True) s s' ∧
      s'.requests[q]? = some ⟨.create payload key, .done
        ((key.bind s.findReportByIdempotencyKey).elim .serverError fun existing =>
          .created existing.id existing.status)⟩ := by
  cases key with
  | none =>
    have hinsert : System.machine.step s (.insert q id now) =
        some (s.setPc q (.done .serverError)) := by
      simp only [System.machine, System.step, System.insert, hq, if_pos hcollides]
      rfl
    exact ⟨_, .single trivial hinsert, Slots.modify_self hq⟩
  | some k =>
    let t := s.setPc q .relookup
    have hinsert : System.machine.step s (.insert q id now) = some t := by
      simp only [System.machine, System.step, System.insert, hq, if_pos hcollides,
        Option.isSome_some, if_true, t]
    have ht : t.requests[q]? = some ⟨.create payload (some k), .relookup⟩ := Slots.modify_self hq
    have hrelookup : System.machine.step t (.relookup q) = some (t.setPc q (.done
        ((t.findReportByIdempotencyKey k).elim .serverError fun existing =>
          .created existing.id existing.status))) := by
      simp only [System.machine, System.step, System.relookup, ht]
      cases t.findReportByIdempotencyKey k <;> rfl
    exact ⟨_, .tail (.single trivial hinsert) trivial hrelookup, Slots.modify_self ht⟩

/-- The lookup of a key answers with its row, or goes on to the INSERT. -/
theorem lookup_step {k : String}
    (hq : s.requests[q]? = some ⟨.create payload (some k), .lookup⟩) :
    System.machine.step s (.lookup q) = some (s.setPc q
      ((s.findReportByIdempotencyKey k).elim .insert fun existing =>
        .done (.created existing.id existing.status))) := by
  simp only [System.machine, System.step, System.lookup, hq]
  cases s.findReportByIdempotencyKey k <;> rfl

omit [UnicodeData] in
theorem not_blocks_setPc {row : Report} {pc : RequestPc} (hpc : ¬ pc.Blocks row)
    (h : ∀ r ∈ s.requests, ¬ r.pc.Blocks row) :
    ∀ r ∈ (s.setPc q pc).requests, ¬ r.pc.Blocks row := by
  intro r hr
  obtain ⟨j, hj⟩ := List.mem_iff_getElem?.mp hr
  obtain ⟨-, x, -, rfl⟩ | ⟨-, hj⟩ := Slots.modify_cases hj
  · exact hpc
  · exact h r (List.mem_of_getElem? hj)

end

section
variable [PostgresLimits] [UnicodeData] {s : System} {q : ℕ} {p : ReportPayload}
  {key : Option String} {token : ℕ} {now : Time}

omit [UnicodeData] in
/-- A lookup that is made finds what the system's finds. -/
theorem lookupKey_pyText {found : Option Report}
    (h : lookupKey s.reports (key.map pyText) = some found) :
    key.bind s.findReportByIdempotencyKey = found := by
  cases key with
  | none => exact Option.some.inj h
  | some k =>
    obtain ⟨t, htext, hfound⟩ := Option.map_eq_some_iff.mp h
    rw [← pyText_injective (of_textValue htext)] at hfound
    exact hfound

/-- From the INSERT on, a request ends where it does in the system. -/
theorem insertion_path (hq : s.requests[q]? = some ⟨.create p.request key, .insert⟩)
    (hlookup : lookupKey s.reports (key.map pyText) = some none)
    (hrow : ∀ row, insertedRow p.accepted (newReportId token) (key.map pyText) now = some row →
      row = createReport p.request.stored (newReportId token) key now)
    (hfree : ∀ r ∈ s.requests,
      ¬ r.pc.Blocks (createReport p.request.stored (newReportId token) key now)) :
    ∃ s', System.machine.Path (fun _ _ => True) s s' ∧
      s'.requests[q]? = some ⟨.create p.request key, (createUpToCommit p.accepted (key.map pyText)
        ⟨s.reports, s.reports, s.reports, token, now⟩).pc⟩ := by
  simp only [createUpToCommit, hlookup]
  cases hinserted : insertedRow p.accepted (newReportId token) (key.map pyText) now with
  | none => exact fail_path hq rfl
  | some row =>
    obtain rfl := hrow row hinserted
    by_cases hcollides : ∃ other ∈ s.reports,
        other.Collides (createReport p.request.stored (newReportId token) key now)
    · obtain ⟨s', hpath, hs'⟩ := conflict_path hq hcollides
      refine ⟨s', hpath, ?_⟩
      rw [hs', lookupKey_pyText hlookup]
      simp only [if_pos hcollides]
      cases key with
      | none => rfl
      | some k =>
        have hfind : findReport s.reports (pyText k) = some none := hlookup
        simp only [Option.map_some, hfind]
        rfl
    · simp only [if_neg hcollides]
      exact commit_path hq hcollides hfree

/-- **A request of the system.** Where no other is about to commit a row that meets its own, a
request can come in the system to the end it has here. -/
theorem create_path
    (hq : s.requests[q]? = some ⟨.create p.request key, (Endpoint.create p.request key).firstPc⟩)
    (hkey : Uncut key) (hfree : ∀ r ∈ s.requests,
      ¬ r.pc.Blocks (createReport p.request.stored (newReportId token) key now)) :
    ∃ s', System.machine.Path (fun _ _ => True) s s' ∧
      s'.requests[q]? = some ⟨.create p.request key, (createUpToCommit p.accepted (key.map pyText)
        ⟨s.reports, s.reports, s.reports, token, now⟩).pc⟩ := by
  have hrow : ∀ row, insertedRow p.accepted (newReportId token) (key.map pyText) now = some row →
      row = createReport p.request.stored (newReportId token) key now :=
    fun _ => eq_of_insertedRow hkey
  cases hlookup : lookupKey s.reports (key.map pyText) with
  | none =>
    simp only [createUpToCommit, hlookup]
    refine fail_path hq ?_
    cases key <;> rfl
  | some found =>
    have hfound := lookupKey_pyText hlookup
    cases key with
    | none =>
      subst hfound
      exact insertion_path hq hlookup hrow hfree
    | some k =>
      have hstep := lookup_step hq
      have hfound' : s.findReportByIdempotencyKey k = found := hfound
      rw [hfound'] at hstep
      cases found with
      | none =>
        have hq' : (s.setPc q .insert).requests[q]? = some ⟨.create p.request (some k), .insert⟩ :=
          Slots.modify_self hq
        obtain ⟨s', hpath, hs'⟩ :=
          insertion_path hq' hlookup hrow (not_blocks_setPc not_false hfree)
        exact ⟨s', (Machine.Path.single trivial hstep).trans hpath, hs'⟩
      | some existing =>
        simp only [createUpToCommit, hlookup]
        exact ⟨_, .single trivial hstep, Slots.modify_self hq⟩

end

end ReportTriage

import ReportTriage.Consumer
import ReportTriage.JsonGrammar

/-!
# The payload of an event

A publisher sends `model_dump_json` of its event in UTF-8, and the consumer reads it with
`json.loads`: the texts of an event may hold anything, and every one of them is written so that it
is read back.

## Main definitions

* `Payload.modelDumpJson`, `Payload.data` — the document, and its bytes.
* `Payload.fields`, `Payload.dict` — what it means.
* `Payload.read_back` — the bytes are read back as the fields, and as those of no other event.
-/

namespace ReportTriage

open Json Scanner
open CodePoint (char)

/-- How `model_dump_json` writes a finite float and a timestamp. The text of a float is a number
that `json` reads as a float again. -/
class EventWriter where
  number : ℚ → PyText
  timestamp : Time → String
  number_isFloat : ∀ q, ∃ sign whole fraction exponent, IsSign [char '-'] sign ∧ IsWhole whole ∧
    IsFraction fraction ∧ IsExponent exponent ∧ ¬ (fraction = [] ∧ exponent = []) ∧
      number q = sign ++ (whole ++ (fraction ++ exponent))

/-! ## Writing -/

/-- A lower-case hexadecimal digit. -/
def hexChar (n : ℕ) : CodePoint := char (.ofNat (if n < 10 then 48 + n else 87 + n))

/-- The characters that a letter escapes. -/
def escapes : List (Char × Char) :=
  [('\"', '\"'), ('\\', '\\'), (.ofNat 8, 'b'), (.ofNat 9, 't'), (.ofNat 10, 'n'), (.ofNat 12, 'f'),
    (.ofNat 13, 'r')]

/-- A character of a string. Only quotes, backslashes and control characters are escaped. -/
def writeChar (c : Char) : PyText :=
  match escapes.lookup c with
  | some e => [backslash, char e]
  | none =>
    if c.toNat < 32 then
      [backslash, char 'u', char '0', char '0', hexChar (c.toNat / 16), hexChar (c.toNat % 16)]
    else [char c]

def writeString (s : String) : PyText := quote :: (s.toList.flatMap writeChar ++ [quote])

def writeMembers : List (String × PyText) → PyText
  | [] => [char '}']
  | [(key, value)] => writeString key ++ char ':' :: (value ++ [char '}'])
  | (key, value) :: members =>
    writeString key ++ char ':' :: (value ++ char ',' :: writeMembers members)

def writeObject (members : List (String × PyText)) : PyText := char '{' :: writeMembers members

def writeBool (b : Bool) : PyText := pyText (if b then "true" else "false")

section
variable [EventWriter]

def TriagedEvent.modelDumpJson (e : TriagedEvent) : PyText :=
  writeObject [("event_type", writeString "report.triaged"),
    ("report_id", writeString e.reportId), ("category", writeString e.category),
    ("priority", writeString e.priority), ("requires_review", writeBool e.requiresReview),
    ("confidence", EventWriter.number e.confidence),
    ("occurred_at", writeString (EventWriter.timestamp e.occurredAt))]

def QueueRoutedEvent.modelDumpJson (e : QueueRoutedEvent) : PyText :=
  writeObject [("event_type", writeString "queue.routed"),
    ("report_id", writeString e.reportId), ("queue_name", writeString e.queueName),
    ("queue_status", writeString e.queueStatus),
    ("occurred_at", writeString (EventWriter.timestamp e.occurredAt))]

def Payload.modelDumpJson : Payload → PyText
  | .triaged e => e.modelDumpJson
  | .queueRouted e => e.modelDumpJson

/-- `event.model_dump_json().encode("utf-8")`. -/
def Payload.data (p : Payload) : List UInt8 := utf8 p.modelDumpJson

end

/-! ## What is written -/

section
variable {depth : ℕ}

/-- A character is one piece of a string, and no surrogate. -/
theorem pieceText_writeChar (c : Char) : ∃ p, PieceText p (writeChar c) ∧
    (p = .plain (char c) ∨ p = .unit (char c)) := by
  rw [writeChar]
  split
  · rename_i e hletter
    have hall : ∀ p ∈ escapes, simpleEscapes.lookup (char p.2) = some (char p.1) := by decide
    obtain ⟨l₁, l₂, hl, -⟩ := List.lookup_eq_some_iff.mp hletter
    have hescape := hall (c, e) (by rw [hl]; simp)
    exact ⟨_, .simple hescape, .inl rfl⟩
  · rename_i hletter
    split
    · rename_i hlt
      have hall : ∀ n < 32, hexUnit (char '0') (char '0') (hexChar (n / 16)) (hexChar (n % 16)) =
          chr n := by
        decide
      exact ⟨_, .unit ((hall _ hlt).trans (chr_ord (char c))), .inr rfl⟩
    · rename_i hlt
      have hne : ∀ p ∈ escapes, c ≠ p.1 := by
        simpa using List.lookup_eq_none_iff.mp hletter
      refine ⟨_, .plain ?_ ?_ (not_lt.mp hlt), .inl rfl⟩
      · exact fun h => hne ('\\', '\\') (by simp [escapes]) (CodePoint.char.inj h)
      · exact fun h => hne ('\"', '\"') (by simp [escapes]) (CodePoint.char.inj h)

theorem joinUnits_cons (c : Char) {p : Piece} (hp : p = .plain (char c) ∨ p = .unit (char c))
    (l : List Piece) : joinUnits (p :: l) = char c :: joinUnits l := by
  rcases hp with rfl | rfl <;> rfl

/-- **A string is written so that it is read back.** -/
theorem stringText_writeString (s : String) : StringText (pyText s) (writeString s) := by
  have hpieces : ∀ l : List Char, ∃ pieces,
      UpTo PieceText quote pieces (l.flatMap writeChar ++ [quote]) ∧
        joinUnits pieces = l.map char := by
    intro l
    induction l with
    | nil => exact ⟨[], .nil, rfl⟩
    | cons c l ih =>
      obtain ⟨p, hp, hc⟩ := pieceText_writeChar c
      obtain ⟨pieces, hl, hjoin⟩ := ih
      refine ⟨p :: pieces, ?_, by rw [joinUnits_cons c hc, hjoin, List.map_cons]⟩
      rw [List.flatMap_cons, List.append_assoc]
      exact .cons hp hl
  obtain ⟨pieces, hupTo, hjoin⟩ := hpieces s.toList
  rw [pyText, ← hjoin]
  exact .mk hupTo

variable [FloatReader]

/-- The members of an object, each with a value of the texts it is written with. -/
def Written (depth : ℕ) : List (String × JsonVal) → List (String × PyText) → Prop :=
  List.Forall₂ fun field member => field.1 = member.1 ∧ Spells depth field.2 member.2

theorem items_writeMembers {field : String × JsonVal} {member : String × PyText}
    {fields : List (String × JsonVal)} {members : List (String × PyText)}
    (h : Written depth (field :: fields) (member :: members)) :
    Items (Pair StringText (Spells depth) isBlank (char ':')) isBlank (char ',') (char '}')
      ((field :: fields).map fun f => (pyText f.1, f.2)) (writeMembers (member :: members)) := by
  have hnone : Blanks isBlank [] := fun c hc => by cases hc
  have hpair : ∀ {field : String × JsonVal} {member : String × PyText},
      field.1 = member.1 ∧ Spells depth field.2 member.2 →
      Pair StringText (Spells depth) isBlank (char ':') (pyText field.1, field.2)
        (writeString member.1 ++ char ':' :: member.2) := by
    rintro ⟨key, v⟩ ⟨_, w⟩ ⟨rfl, hv⟩
    exact .mk (stringText_writeString key) hnone hnone hv
  induction members generalizing field fields member with
  | nil =>
    obtain ⟨hfield, hfields⟩ := List.forall₂_cons.mp h
    cases hfields
    have hone : Items (Pair StringText (Spells depth) isBlank (char ':')) isBlank (char ',')
        (char '}') _ _ := .one (hpair hfield) hnone
    simpa [writeMembers] using hone
  | cons next members ih =>
    obtain ⟨hfield, hfields⟩ := List.forall₂_cons.mp h
    cases hfields with
    | @cons field' _ fields' _ hnext hrest =>
      have hcons := Items.cons (hpair hfield) hnone hnone (ih (.cons hnext hrest))
      simpa [writeMembers] using hcons

theorem document_writeObject {field : String × JsonVal} {member : String × PyText}
    {fields : List (String × JsonVal)} {members : List (String × PyText)}
    (h : Written depth (field :: fields) (member :: members)) :
    Document (depth + 1) (.dict (dictOf ((field :: fields).map fun f => (pyText f.1, f.2))))
      (writeObject (member :: members)) := by
  have hnone : Blanks isBlank [] := fun c hc => by cases hc
  refine ⟨[], _, [], ?_, hnone, hnone, .inr (.dict (.items hnone (items_writeMembers h)))⟩
  simp [writeObject]

omit [FloatReader] in
/-- A dict of keys that differ has its members in their order. -/
theorem dictOf_of_nodup {l : List (PyText × JsonVal)} (h : (l.map Prod.fst).Nodup) :
    dictOf l = l := by
  have hfold : ∀ d : JsonObject, ((d ++ l).map Prod.fst).Nodup →
      l.foldl (fun d e => setItem d e.1 e.2) d = d ++ l := by
    clear h
    intro d h
    induction l generalizing d with
    | nil => simp
    | cons e l ih =>
      have hnew : d.any (fun e' => e'.1 = e.1) = false := by
        rw [List.any_eq_false]
        intro e' he' heq
        rw [List.map_append, List.nodup_append] at h
        exact h.2.2 e'.1 (List.mem_map_of_mem he') e.1 (by simp) (by simpa using heq)
      have hset : setItem d e.1 e.2 = d ++ [e] := by simp [setItem, hnew]
      rw [List.foldl_cons, hset, ih _ (by simpa using h)]
      simp
  exact hfold [] h

end

/-! ## An event -/

section
variable [FloatReader]

theorem spells_writeString (s : String) : Spells 0 (.str (pyText s)) (writeString s) :=
  Scalar.string (stringText_writeString s)

theorem spells_writeBool (b : Bool) : Spells 0 (.bool b) (writeBool b) := by
  cases b
  · exact Scalar.constant (by simp [constants, writeBool])
  · exact Scalar.constant (by simp [constants, writeBool])

variable [EventWriter]

/-- The fields of an event, in the order they are declared. -/
def Payload.fields : Payload → List (String × JsonVal)
  | .triaged e => [("event_type", .str (pyText "report.triaged")),
      ("report_id", .str (pyText e.reportId)), ("category", .str (pyText e.category)),
      ("priority", .str (pyText e.priority)), ("requires_review", .bool e.requiresReview),
      ("confidence", .float (FloatReader.read (EventWriter.number e.confidence))),
      ("occurred_at", .str (pyText (EventWriter.timestamp e.occurredAt)))]
  | .queueRouted e => [("event_type", .str (pyText "queue.routed")),
      ("report_id", .str (pyText e.reportId)), ("queue_name", .str (pyText e.queueName)),
      ("queue_status", .str (pyText e.queueStatus)),
      ("occurred_at", .str (pyText (EventWriter.timestamp e.occurredAt)))]

/-- The dict of the fields. -/
def Payload.dict (p : Payload) : JsonVal := .dict (p.fields.map fun f => (pyText f.1, f.2))

theorem spells_number (q : ℚ) :
    Spells 0 (.float (FloatReader.read (EventWriter.number q))) (EventWriter.number q) := by
  obtain ⟨sign, whole, fraction, exponent, hsign, hwhole, hfraction, hexponent, hfloat, htext⟩ :=
    EventWriter.number_isFloat q
  refine Scalar.number ?_
  rw [htext]
  refine .mk hsign hwhole hfraction hexponent ?_
  rw [numberValue, if_neg hfloat]
  simp only [List.append_assoc]

theorem document_modelDumpJson (p : Payload) : Document 1 p.dict p.modelDumpJson := by
  have hkeys : ((p.fields.map fun f => (pyText f.1, f.2)).map Prod.fst).Nodup := by
    cases p with
    | triaged e =>
      simp only [Payload.fields, List.map_cons, List.map_nil]
      decide
    | queueRouted e =>
      simp only [Payload.fields, List.map_cons, List.map_nil]
      decide
  rw [Payload.dict, ← dictOf_of_nodup hkeys]
  cases p with
  | triaged e =>
    refine document_writeObject ?_
    simp only [Written, List.forall₂_cons, List.forall₂_nil_left_iff, spells_writeString,
      spells_writeBool, spells_number, and_self]
  | queueRouted e =>
    refine document_writeObject ?_
    simp only [Written, List.forall₂_cons, List.forall₂_nil_left_iff, spells_writeString, and_self]

omit [FloatReader] in
/-- The bytes begin with a brace and a quote, and are taken for UTF-8. -/
theorem decodeBytes_data (p : Payload) :
    decodeBytes p.data (detectEncoding p.data) = some p.modelDumpJson := by
  have hascii : detectEncoding p.data = .utf8 := by
    have hstart : ∃ b, p.data = 0x7B :: 0x22 :: b := by
      cases p <;> exact ⟨_, rfl⟩
    obtain ⟨b, hb⟩ := hstart
    rw [hb]
    exact detectEncoding_of_ascii (by decide) (by decide) (by decide)
  rw [hascii]
  exact decodeUtf8_eq_some_iff.mpr rfl

/-- An event nests one call. -/
theorem Payload.loads_data (p : Payload) {limit : ℕ} (h : 0 < limit) :
    loads limit p.data = .ok p.dict := by
  have hdecode := (decode_of_document (document_modelDumpJson p)).resolve_right
    (fun hdeep => absurd hdeep.1 (not_lt.mpr h))
  rw [loads, decodeBytes_data]
  exact hdecode

/-- **An event is read back.** Whatever its texts hold, an interpreter that can nest one call
reads from its bytes the dict of its fields; and no other event has these bytes. -/
theorem Payload.read_back (p : Payload) :
    (∀ limit, 0 < limit → loads limit p.data = .ok p.dict) ∧
      ∀ p' : Payload, p'.data = p.data → p'.fields = p.fields := by
  refine ⟨fun limit h => p.loads_data h, fun p' hdata => ?_⟩
  have hread := p.loads_data (Nat.zero_lt_succ 0)
  rw [← hdata, p'.loads_data (Nat.zero_lt_succ 0), Except.ok.injEq] at hread
  have hinjective : Function.Injective fun f : String × JsonVal => (pyText f.1, f.2) := by
    intro f f' h
    obtain ⟨hk, hv⟩ := Prod.mk.inj h
    exact Prod.ext (pyText_injective hk) hv
  exact List.map_injective_iff.mpr hinjective (JsonVal.dict.inj hread)

end

end ReportTriage

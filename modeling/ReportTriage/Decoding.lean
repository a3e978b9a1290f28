import ReportTriage.EventFormat
import ReportTriage.Redelivery

/-!
# What the consumer makes of a payload

`decode_subject` asks of a payload only that `json.loads` takes it. With the reader of JSON that
the interpreter has, the messages it takes, ignores and cannot handle are told by their bytes.

## Main definitions

* `Interpreter` — how deep `json` may nest its calls.
* `RawMessage.text` — the text of a payload.
* `Consumer.decodeSubject_payload` — what becomes of a message, by its text.
-/

namespace ReportTriage

open Json Scanner
open CodePoint (char)

/-- A Python interpreter, in which `json` can nest one call at least. -/
class Interpreter extends FloatReader where
  nesting : ℕ
  nesting_pos : 0 < nesting

/-- What `json.loads` does, to a caller that does not use the value. -/
def Json.outcome [FloatReader] (limit : ℕ) (b : List UInt8) : JsonOutcome :=
  match loads limit b with
  | .ok _ => .value
  | .error .malformed => .valueError
  | .error .tooDeep => .otherError

instance [Interpreter] : JsonParser := ⟨outcome Interpreter.nesting⟩

/-- The text of a payload, unless its bytes are none. -/
def RawMessage.text (m : RawMessage) : Option PyText := decodeBytes m.data (detectEncoding m.data)

/-- An event is taken. -/
theorem Payload.loads_eq_value [Interpreter] [EventWriter] (p : Payload) :
    JsonParser.loads p.data = .value := by
  change outcome _ _ = _
  rw [outcome, p.loads_data Interpreter.nesting_pos]

namespace Consumer

variable [Interpreter] {m : RawMessage} {t : PyText}

theorem loads_eq_value_iff : JsonParser.loads m.data = .value ↔
    ∃ t v, m.text = some t ∧ Document Interpreter.nesting v t := by
  have hvalue : JsonParser.loads m.data = .value ↔
      ∃ v, loads Interpreter.nesting m.data = .ok v := by
    change outcome _ _ = _ ↔ _
    rw [outcome]
    split <;> simp_all
  rw [hvalue]
  simp only [loads, RawMessage.text]
  cases decodeBytes m.data (detectEncoding m.data) with
  | none => simp
  | some t => simp [decode_eq_ok_iff]

theorem loads_eq_otherError_iff : JsonParser.loads m.data = .otherError ↔
    ∃ t, m.text = some t ∧ Json.decode Interpreter.nesting t = .error .tooDeep := by
  have hother : JsonParser.loads m.data = .otherError ↔
      loads Interpreter.nesting m.data = .error .tooDeep := by
    change outcome _ _ = _ ↔ _
    rw [outcome]
    split <;> simp_all
  rw [hother]
  simp only [loads, RawMessage.text]
  cases decodeBytes m.data (detectEncoding m.data) with
  | none => simp
  | some t => simp

theorem decodeSubject_eq_some_iff : decodeSubject m = .ok (some m.subject) ↔ m.Countable := by
  refine ⟨fun h => (countable_of_decode h).2, fun h => ?_⟩
  rw [decodeSubject, if_neg (not_not.mpr h.1), h.2]

/-- **What becomes of a message, by its text.** It is recorded if and only if its subject is
known and its text is a JSON document nested no deeper than the interpreter can call. It is never
lost on its consumer, in any run, if its text has no more opening brackets than that. And if its
subject is known and its text is a document nested deeper, its handler raises, and no run of any
number of handlers ever acknowledges it. -/
theorem decodeSubject_payload (m : RawMessage) :
    (decodeSubject m = .ok (some m.subject) ↔ m.subject ∈ knownSubjects ∧
      ∃ t v, m.text = some t ∧ Document Interpreter.nesting v t) ∧
    ((∀ t, m.text = some t → brackets t ≤ Interpreter.nesting) → Settles m) ∧
    (m.subject ∈ knownSubjects → ∀ t, m.text = some t → (∃ depth v, Document depth v t) →
      (¬ ∃ v, Document Interpreter.nesting v t) → decodeSubject m = .error () ∧
        ∀ d u durable seq, machine.init d → machine.Path (fun _ _ => True) d u →
          u.messages[seq]? = some m → (durable, seq) ∉ u.acked) := by
  refine ⟨?_, fun hbrackets => ?_, ?_⟩
  · rw [decodeSubject_eq_some_iff, RawMessage.Countable, loads_eq_value_iff]
  · refine settles_of_decode fun herror => ?_
    obtain ⟨-, hloads⟩ := decodeSubject_eq_error.mp herror
    obtain ⟨t, ht, hdeep⟩ := loads_eq_otherError_iff.mp hloads
    exact absurd (lt_brackets_of_decode hdeep) (not_lt.mpr (hbrackets t ht))
  · rintro hknown t ht ⟨depth, v, hdocument⟩ hdeeper
    have herror : decodeSubject m = .error () := by
      refine decodeSubject_eq_error.mpr ⟨hknown, loads_eq_otherError_iff.mpr ⟨t, ht, ?_⟩⟩
      rcases decode_of_document hdocument with hread | ⟨-, hdeep⟩
      · exact absurd ⟨v, decode_eq_ok_iff.mp hread⟩ hdeeper
      · exact hdeep
    refine ⟨herror, fun d u durable seq hd hu hmem hacked => ?_⟩
    exact not_acked_of_poison hd hu herror (.inr hacked) hmem

end Consumer

end ReportTriage

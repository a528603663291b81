import Myna.Lib.Json
import Myna.Core.Ie115

/-!
# Myna — transcript events on the wire (`event_to_wire` of the server, `from_wire` of the client)

The server writes an event as the JSON object `{"event": …, "data": …}`, the client reads it into
its own event. Both mirror each other field by field, except that a segment index is any integer
here and 32 bits there.

* **`eventToWire`**, **`Client.fromWire`** — the two functions;
* **`Client.Same`** — the client's event is the server's;
* **`fromWire_eventToWire`** — the client reads the event that was written.
-/

namespace Myna

open Ie115 (Segment Disposition)

/-! ## The client's events -/

namespace Client

def PHASE_PREPARING : String := "preparing"

def PHASE_READY : String := "ready"

def PHASE_TRANSCRIBING : String := "transcribing"

structure Progress where
  snippet : Option String := none
  phase : String
  warning : Option String := none
  warningCode : Option String := none
deriving DecidableEq

structure TranscriptionFinal where
  text : String
  segments : List Segment := []
  disposition : Disposition := .committed
  segmentIndex : Option UInt32 := none
deriving DecidableEq

structure ErrorData where
  code : String
  message : String
deriving DecidableEq

inductive TranscriptionEvent
  | progress (p : Progress)
  | final (f : TranscriptionFinal)
  | done (d : TranscriptionFinal)
  | error (e : ErrorData)
deriving DecidableEq

/-- `is_terminal`. -/
def TranscriptionEvent.isTerminal : TranscriptionEvent → Bool
  | .done _ => true
  | .error _ => true
  | _ => false

inductive WireError
  | notAnEvent
  | badData
deriving DecidableEq

end Client

/-! ## Writing -/

/-- `Disposition.value`. -/
def Ie115.Disposition.value : Disposition → String
  | .committed => "committed"
  | .unstable => "unstable"

/-- An optional integer. -/
def jsonIndex : Option ℕ → Json
  | some n => .int n
  | none => .null

def jsonScore : Option ℚ → Json
  | some x => .float x
  | none => .null

/-- `asdict` of a `Segment`. -/
def segmentDict (s : Segment) : Json :=
  .obj [("start", .float s.start), ("end", .float s.stop), ("text", .str s.text),
    ("score", jsonScore s.score)]

/-- `asdict` of an event; what is none of the four classes has no fields here. -/
def eventDict : Ie115.TranscriptionEvent → Json
  | .progress snippet phase warning warningCode =>
    .obj [("snippet", .ofOption snippet), ("phase", .str phase), ("warning", .ofOption warning),
      ("warning_code", .ofOption warningCode)]
  | .final text segments disposition segmentIndex =>
    .obj [("text", .str text), ("segments", .arr (segments.map segmentDict)),
      ("disposition", .str disposition.value), ("segment_index", jsonIndex segmentIndex)]
  | .done text segments =>
    .obj [("text", .str text), ("segments", .arr (segments.map segmentDict))]
  | .error code message => .obj [("code", .str code), ("message", .str message)]
  | .other _ => .obj []

/-- `event_to_wire`. -/
def eventToWire (e : Ie115.TranscriptionEvent) : Json :=
  .obj [("event", .str e.type), ("data", eventDict e)]

/-! ## Reading -/

namespace Client

def readSegment (value : Json) : Option Segment := do
  let start ← value.field "start" none Json.readF64
  let stop ← value.field "end" none Json.readF64
  let text ← value.field "text" none Json.asStr
  let score ← value.field "score" (some none) (Json.readOption Json.readF64)
  some { start, stop, text, score }

def readDisposition : Json → Option Disposition
  | .str "committed" => some .committed
  | .str "unstable" => some .unstable
  | _ => none

def readProgress (data : Json) : Option Progress := do
  let snippet ← data.field "snippet" (some none) (Json.readOption Json.asStr)
  let phase ← data.field "phase" (some PHASE_TRANSCRIBING) Json.asStr
  let warning ← data.field "warning" (some none) (Json.readOption Json.asStr)
  let warningCode ← data.field "warning_code" (some none) (Json.readOption Json.asStr)
  some { snippet, phase, warning, warningCode }

def readFinal (data : Json) : Option TranscriptionFinal := do
  let text ← data.field "text" (some "") Json.asStr
  let segments ← data.field "segments" (some []) (Json.readAll readSegment)
  let disposition ← data.field "disposition" (some .committed) readDisposition
  let segmentIndex ← data.field "segment_index" (some none) (Json.readOption Json.readU32)
  some { text, segments, disposition, segmentIndex }

def readError (data : Json) : Option ErrorData := do
  let code ← data.field "code" (some "internal") Json.asStr
  let message ← data.field "message" (some "") Json.asStr
  some { code, message }

/-- The event of a type, where there is such a type and its data can be read. -/
def payload (event : String) (data : Json) : Option (Option TranscriptionEvent) :=
  if event = "transcription.progress" then some ((readProgress data).map .progress)
  else if event = "transcription.final" then some ((readFinal data).map .final)
  else if event = "transcription.done" then some ((readFinal data).map .done)
  else if event = "transcription.error" then some ((readError data).map .error)
  else none

def readEvent (event : String) (data : Json) : Except WireError (Option TranscriptionEvent) :=
  match payload event data with
  | none => .ok none
  | some none => .error .badData
  | some (some e) => .ok (some e)

/-- `from_wire`. A missing or null `data` is an empty object. -/
def fromWire (wire : Json) : Except WireError (Option TranscriptionEvent) :=
  match (wire.get? "event").bind Json.asStr with
  | none => .error .notAnEvent
  | some event =>
    match wire.get? "data" with
    | none => readEvent event (.obj [])
    | some .null => readEvent event (.obj [])
    | some data => readEvent event data

/-! ## The same event -/

/-- The client's event is the server's, in every field the two share. -/
def Same : Ie115.TranscriptionEvent → TranscriptionEvent → Prop
  | .progress snippet phase warning warningCode, .progress p =>
    p = { snippet, phase, warning, warningCode }
  | .final text segments disposition segmentIndex, .final f =>
    f.text = text ∧ f.segments = segments ∧ f.disposition = disposition ∧
      f.segmentIndex.map UInt32.toNat = segmentIndex
  | .done text segments, .done d => d = { text, segments }
  | .error code message, .error e => e = { code, message }
  | _, _ => False

/-- An event of the four classes, with a segment index of 32 bits, where it has one. -/
def Fits : Ie115.TranscriptionEvent → Prop
  | .final _ _ _ (some n) => n < 2 ^ 32
  | .other _ => False
  | _ => True

theorem readSegment_segmentDict (s : Segment) : readSegment (segmentDict s) = some s := by
  obtain ⟨start, stop, text, score⟩ := s
  cases score <;> rfl

theorem readDisposition_value (d : Disposition) : readDisposition (.str d.value) = some d := by
  cases d <;> rfl

theorem readAll_segments (segments : List Segment) :
    Json.readAll readSegment (.arr (segments.map segmentDict)) = some segments := by
  have h := Json.readAll_map (f := id) readSegment_segmentDict segments
  rwa [List.map_id] at h

/-- An index is read when it has 32 bits. -/
theorem readIndex (index : Option ℕ) :
    Json.readOption Json.readU32 (jsonIndex index) =
      if ∀ n, index = some n → n < 2 ^ 32 then some (index.map UInt32.ofNat) else none := by
  cases index with
  | none => rfl
  | some n =>
    show (if n < 2 ^ 32 then some (UInt32.ofNat n) else none).map some = _
    by_cases hn : n < 2 ^ 32
    · rw [if_pos hn, if_pos fun m hm => Option.some.inj hm ▸ hn]
      rfl
    · rw [if_neg hn, if_neg fun h => hn (h n rfl)]
      rfl

theorem readProgress_dict (snippet : Option String) (phase : String)
    (warning warningCode : Option String) :
    readProgress (eventDict (.progress snippet phase warning warningCode)) =
      some { snippet, phase, warning, warningCode } := by
  simp [readProgress, eventDict, Json.field, Json.get?, Dict.get?, Json.asStr]

theorem readFinal_dict (text : String) (segments : List Segment) (disposition : Disposition)
    (index : Option ℕ) :
    readFinal (eventDict (.final text segments disposition index)) =
      (Json.readOption Json.readU32 (jsonIndex index)).map fun segmentIndex =>
        { text, segments, disposition, segmentIndex } := by
  simp only [readFinal, eventDict, Json.field, Json.get?, Dict.get?, String.reduceEq, if_true,
    if_false, readAll_segments, readDisposition_value, Json.asStr]
  cases Json.readOption Json.readU32 (jsonIndex index) <;> rfl

theorem readFinal_doneDict (text : String) (segments : List Segment) :
    readFinal (eventDict (.done text segments)) = some { text, segments } := by
  simp only [readFinal, eventDict, Json.field, Json.get?, Dict.get?, String.reduceEq, if_true,
    if_false, readAll_segments, Json.asStr]
  rfl

theorem readError_dict (code message : String) :
    readError (eventDict (.error code message)) = some { code, message } := by
  simp [readError, eventDict, Json.field, Json.get?, Dict.get?, Json.asStr]

/-- What is written is an object with the event's type. -/
theorem fromWire_eventToWire_eq (e : Ie115.TranscriptionEvent) :
    fromWire (eventToWire e) = readEvent e.type (eventDict e) := by
  cases e <;> rfl

theorem readEvent_eq {event : String} {data : Json} {read : Option TranscriptionEvent}
    (h : payload event data = some read) (c : TranscriptionEvent) :
    readEvent event data = .ok (some c) ↔ read = some c := by
  unfold readEvent
  rw [h]
  cases read with
  | none =>
    constructor
    · intro hbad
      cases hbad
    · intro hnone
      cases hnone
  | some e =>
    show Except.ok (some e) = Except.ok (some c) ↔ some e = some c
    rw [Except.ok.injEq]

theorem payload_eq (e : Ie115.TranscriptionEvent) (hclass : ∀ type, e ≠ .other type) :
    payload e.type (eventDict e) = some (match e with
      | .progress snippet phase warning warningCode =>
        some (.progress { snippet, phase, warning, warningCode })
      | .final text segments disposition index =>
        (Json.readOption Json.readU32 (jsonIndex index)).map fun segmentIndex =>
          .final { text, segments, disposition, segmentIndex }
      | .done text segments => some (.done { text, segments })
      | .error code message => some (.error { code, message })
      | .other _ => none) := by
  cases e with
  | progress snippet phase warning warningCode =>
    show some ((readProgress _).map _) = _
    rw [readProgress_dict]
    rfl
  | final text segments disposition index =>
    show some ((readFinal _).map _) = _
    rw [readFinal_dict, Option.map_map]
    rfl
  | done text segments =>
    show some ((readFinal _).map _) = _
    rw [readFinal_doneDict]
    rfl
  | error code message =>
    show some ((readError _).map _) = _
    rw [readError_dict]
    rfl
  | other type => exact absurd rfl (hclass type)

/-- **The client reads the event that the server wrote**, exactly when its segment index has 32
bits. -/
theorem fromWire_eventToWire (e : Ie115.TranscriptionEvent) :
    (∃ c, fromWire (eventToWire e) = .ok (some c) ∧ Same e c) ↔ Fits e := by
  by_cases hother : ∃ type, e = .other type
  · obtain ⟨type, rfl⟩ := hother
    exact ⟨fun ⟨c, _, hsame⟩ => by cases c <;> exact hsame, False.elim⟩
  have hclass : ∀ type, e ≠ .other type := fun type heq => hother ⟨type, heq⟩
  simp only [fromWire_eventToWire_eq, readEvent_eq (payload_eq e hclass)]
  cases e with
  | progress snippet phase warning warningCode => exact ⟨fun _ => trivial, fun _ => ⟨_, rfl, rfl⟩⟩
  | final text segments disposition index =>
    show (∃ c, (Json.readOption Json.readU32 (jsonIndex index)).map _ = some c ∧ _) ↔ _
    rw [readIndex]
    constructor
    · rintro ⟨c, hread, -⟩
      split at hread
      case isTrue hfits =>
        cases index with
        | none => trivial
        | some n => exact hfits n rfl
      case isFalse => cases hread
    · intro hfits
      have hall : ∀ n, index = some n → n < 2 ^ 32 := by
        rintro n rfl
        exact hfits
      rw [if_pos hall]
      refine ⟨_, rfl, rfl, rfl, rfl, ?_⟩
      cases index with
      | none => rfl
      | some n =>
        show some (UInt32.ofNat n).toNat = some n
        rw [UInt32.toNat_ofNat_of_lt' (hall n rfl)]
  | done text segments => exact ⟨fun _ => trivial, fun _ => ⟨_, rfl, rfl⟩⟩
  | error code message => exact ⟨fun _ => trivial, fun _ => ⟨_, rfl, rfl⟩⟩
  | other type => exact absurd rfl (hclass type)

end Client

end Myna

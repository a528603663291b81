import Myna.Core.EventsWire

/-!
# Myna — IE115 frames decoded by the client (`decode_frame` of `ws_unix_ie115`)

The encoder's frames as JSON, and the client's decoder, which reads each frame on its own. The one
thing it remembers is whether its commit has gone out: before that, a `completed` without text is
the reset another server sends in mid-stream.

* **`Frame.toJson`** — a frame as it is written;
* **`Client.decodeFrame`** — the events of a frame;
* **`Client.carried`** — what the dialect carries of an event;
* **`decoded_eq`** — over any calls of the encoder, the decoded events are what is carried of the
  events that were encoded, in order.
-/

namespace Myna

namespace Ie115

/-! ## Frames as JSON -/

/-- A key that is left out where there is no value. -/
def jsonText (key : String) : Option String → List (String × Json)
  | some text => [(key, .str text)]
  | none => []

/-- One of `segments_to_ie115`: the score is left out rather than null. -/
def segmentFields (s : Segment) : Json :=
  .obj ([("start", .float s.start), ("end", .float s.stop), ("text", .str s.text)] ++
    match s.score with
    | some score => [("score", .float score)]
    | none => [])

def jsonSegments : List Segment → List (String × Json)
  | [] => []
  | segments => [("segments", .arr (segments.map segmentFields))]

/-- The frame as it is written, stamped with its `event_id`. -/
def Frame.toJson (eventId : String) : Frame → Json
  | .committed itemId previousItemId =>
    .obj [("type", .str "input_audio_buffer.committed"), ("event_id", .str eventId),
      ("item_id", .str itemId), ("previous_item_id", .ofOption previousItemId)]
  | .created itemId previousItemId =>
    .obj [("type", .str "conversation.item.created"), ("event_id", .str eventId),
      ("previous_item_id", .ofOption previousItemId),
      ("item", .obj [("id", .str itemId), ("object", .str "realtime.item"),
        ("type", .str "message"), ("status", .str "in_progress"), ("role", .str "user"),
        ("content", .arr [.obj [("type", .str "input_audio")]])])]
  | .status state snippet warning warningCode =>
    .obj ([("type", .str "status"), ("state", .str state)] ++ jsonText "snippet" snippet ++
      jsonText "warning" warning ++ jsonText "warning_code" warningCode ++
      [("event_id", .str eventId)])
  | .delta itemId contentIndex text disposition segmentIndex segments =>
    .obj ([("type", .str "conversation.item.input_audio_transcription.delta"),
      ("item_id", .str itemId), ("content_index", .int contentIndex), ("delta", .str text),
      ("disposition", .str disposition.value)] ++
      (match segmentIndex with
        | some n => [("segment_index", .int n)]
        | none => []) ++ jsonSegments segments ++ [("event_id", .str eventId)])
  | .completed itemId contentIndex transcript seconds segments =>
    .obj ([("type", .str "conversation.item.input_audio_transcription.completed"),
      ("item_id", .str itemId), ("content_index", .int contentIndex),
      ("transcript", .str transcript),
      ("usage", .obj [("type", .str "duration"), ("seconds", .float seconds)])] ++
      jsonSegments segments ++ [("event_id", .str eventId)])
  | .error type code message =>
    .obj [("type", .str "error"),
      ("error", .obj [("type", .str type), ("code", .str code), ("message", .str message)]),
      ("event_id", .str eventId)]

/-- A frame that carries an event; the others only name or announce an item. -/
def Frame.isEvent : Frame → Bool
  | .committed .. => false
  | .created .. => false
  | _ => true

/-! ## Calls of the encoder -/

/-- A call of one of the encoder's entry points. -/
inductive Call
  | beginUtterance
  | commitFrames
  | frames (event : TranscriptionEvent) (audioSeconds : ℚ)

section

variable (hex : ℕ → String)

/-- The frames of a call: none where it raises. -/
def Encoder.call (enc : Encoder) : Call → List Frame × Encoder
  | .beginUtterance => ([], enc.beginUtterance)
  | .commitFrames => enc.commitFrames hex
  | .frames event audioSeconds =>
    match enc.frames hex ⟨event, none⟩ audioSeconds with
    | (some frames, enc) => (frames, enc)
    | (none, enc) => ([], enc)

/-- The frames of a run of calls, in the order in which they are sent. -/
def Encoder.run : Encoder → List Call → List Frame
  | _, [] => []
  | enc, call :: calls => (enc.call hex call).1 ++ Encoder.run (enc.call hex call).2 calls

end

/-- The event of a call that encodes one: one of the four classes. -/
def Call.event? : Call → Option TranscriptionEvent
  | .frames (.other _) _ => none
  | .frames event _ => some event
  | _ => none

end Ie115

/-! ## The decoder -/

namespace Client

open Ie115 (Frame Call Encoder Segment Disposition)

/-- A key whose value is a string. -/
def text (value : Json) (key : String) : Option String := (value.get? key).bind Json.asStr

def decodeStatus (value : Json) : TranscriptionEvent :=
  .progress {
    phase := match text value "state" with
      | some "loading" => PHASE_PREPARING
      | some "ready" => PHASE_READY
      | _ => PHASE_TRANSCRIBING
    snippet := text value "snippet"
    warning := text value "warning"
    warningCode := text value "warning_code" }

def decodeDelta (value : Json) : TranscriptionEvent :=
  .final {
    text := (text value "delta").getD ""
    segments := []
    disposition :=
      if (text value "disposition").getD "committed" = "unstable" then .unstable else .committed
    -- `as u32` keeps the low 32 bits
    segmentIndex := ((value.get? "segment_index").bind Json.asU64).map UInt32.ofNat }

/-- A transcript without text ends an utterance only once the client has committed. -/
def decodeCompleted (value : Json) (afterCommit : Bool) : List TranscriptionEvent :=
  let transcript := (text value "transcript").getD ""
  if transcript = "" ∧ afterCommit = false then [] else [.done { text := transcript }]

def decodeError (value : Json) : TranscriptionEvent :=
  .error {
    code := ((value.get? "error").bind (text · "code")).getD "server_error"
    message := ((value.get? "error").bind (text · "message")).getD "" }

/-- `decode_frame`. -/
def decodeFrame (value : Json) (afterCommit : Bool) : List TranscriptionEvent :=
  match text value "type" with
  | some "status" => [decodeStatus value]
  | some "model.loaded" => [.progress { phase := PHASE_READY }]
  | some "model.unloaded" => [.progress { phase := PHASE_PREPARING }]
  | some "conversation.item.input_audio_transcription.delta" => [decodeDelta value]
  | some "conversation.item.input_audio_transcription.completed" =>
    decodeCompleted value afterCommit
  | some "error" => [decodeError value]
  | _ => []

/-- What the dialect carries of an event: no timed segments, the index of a committed segment only,
one of three phases, no empty notices, and one of three error codes. -/
def carried (afterCommit : Bool) : Ie115.TranscriptionEvent → List TranscriptionEvent
  | .progress snippet phase warning warningCode =>
    [.progress {
      phase := if phase = "preparing" ∨ phase = "ready" then phase else PHASE_TRANSCRIBING
      snippet := Ie115.truthy snippet
      warning := Ie115.truthy warning
      warningCode := Ie115.truthy warningCode }]
  | .final text _ disposition segmentIndex =>
    [.final {
      text, disposition
      segmentIndex := if disposition = .committed then
        (segmentIndex.filter (· < 2 ^ 64)).map UInt32.ofNat else none }]
  | .done text _ => if text = "" ∧ afterCommit = false then [] else [.done { text }]
  | .error code message => [.error { code := (Ie115.errorToIe115 code).2, message }]
  | .other _ => []

/-! ## One frame -/

variable {hex : ℕ → String} {enc : Encoder} {afterCommit : Bool}

theorem decodeFrame_of_not_isEvent {frame : Frame} (h : frame.isEvent = false) (eventId : String) :
    decodeFrame (frame.toJson eventId) afterCommit = [] := by
  cases frame with
  | committed | created => rfl
  | status | delta | completed | error => cases h

/-- The phase of a state. -/
theorem phase_eq (state : String) :
    (match some state with
      | some "loading" => PHASE_PREPARING
      | some "ready" => PHASE_READY
      | _ => PHASE_TRANSCRIBING) =
      if state = "loading" then PHASE_PREPARING
      else if state = "ready" then PHASE_READY else PHASE_TRANSCRIBING := by
  by_cases hloading : state = "loading"
  · subst hloading
    rfl
  · by_cases hready : state = "ready"
    · subst hready
      rfl
    · rw [if_neg hloading, if_neg hready]
      split
      case h_1 heq => exact absurd (Option.some.inj heq) hloading
      case h_2 heq => exact absurd (Option.some.inj heq) hready
      case h_3 => rfl

theorem decodeFrame_status (eventId state : String) (snippet warning warningCode : Option String) :
    decodeFrame ((Frame.status state snippet warning warningCode).toJson eventId) afterCommit =
      [.progress {
        phase := if state = "loading" then PHASE_PREPARING
          else if state = "ready" then PHASE_READY else PHASE_TRANSCRIBING
        snippet, warning, warningCode }] := by
  rw [← phase_eq state]
  cases snippet <;> cases warning <;> cases warningCode <;> rfl

/-- An index is read unless it is beyond 64 bits. -/
theorem asU64_index (index : Option ℕ) :
    ((index.map fun n : ℕ => Json.int n).bind Json.asU64) = index.filter (· < 2 ^ 64) := by
  cases index with
  | none => rfl
  | some n =>
    show (if n < 2 ^ 64 then some n else none) = _
    rw [Option.filter_some]
    by_cases hn : n < 2 ^ 64
    · rw [if_pos hn, if_pos (decide_eq_true hn)]
    · rw [if_neg hn, if_neg (by rwa [decide_eq_true_iff])]

theorem decodeFrame_delta (eventId itemId text : String) (contentIndex : ℕ)
    (disposition : Disposition) (segmentIndex : Option ℕ) (segments : List Segment) :
    decodeFrame ((Frame.delta itemId contentIndex text disposition segmentIndex segments).toJson
        eventId) afterCommit =
      [.final {
        text, disposition
        segmentIndex := (segmentIndex.filter (· < 2 ^ 64)).map UInt32.ofNat }] := by
  generalize hvalue : (Frame.delta itemId contentIndex text disposition segmentIndex
    segments).toJson
    eventId = value
  have htype : Client.text value "type" =
      some "conversation.item.input_audio_transcription.delta" := by rw [← hvalue]; rfl
  have htext : Client.text value "delta" = some text := by rw [← hvalue]; rfl
  have hdisposition : Client.text value "disposition" = some disposition.value := by
    rw [← hvalue]
    rfl
  have hindex : value.get? "segment_index" = segmentIndex.map fun n => .int n := by
    rw [← hvalue]
    cases segmentIndex <;> cases segments <;> rfl
  have hread := hindex ▸ asU64_index segmentIndex
  simp only [decodeFrame, htype, decodeDelta, htext, hdisposition, hread]
  cases disposition <;> rfl

theorem decodeFrame_completed (eventId itemId transcript : String) (contentIndex : ℕ) (seconds : ℚ)
    (segments : List Segment) :
    decodeFrame ((Frame.completed itemId contentIndex transcript seconds segments).toJson eventId)
        afterCommit =
      if transcript = "" ∧ afterCommit = false then [] else [.done { text := transcript }] := by
  cases segments <;> rfl

theorem decodeFrame_error (eventId type code message : String) :
    decodeFrame ((Frame.error type code message).toJson eventId) afterCommit =
      [.error { code, message }] := by
  rfl

/-- A phase comes back, unless it is none of the three. -/
theorem phaseToState_phase (phase : String) :
    (if Ie115.phaseToState phase = "loading" then PHASE_PREPARING
      else if Ie115.phaseToState phase = "ready" then PHASE_READY else PHASE_TRANSCRIBING) =
      if phase = "preparing" ∨ phase = "ready" then phase else PHASE_TRANSCRIBING := by
  unfold Ie115.phaseToState
  split
  case h_1 => rfl
  case h_2 => rfl
  case h_3 => rfl
  case h_4 hpreparing hready _ =>
    rw [if_neg (fun h : phase = "preparing" ∨ phase = "ready" => h.elim hpreparing hready)]
    rfl

/-- **The frame of an event decodes to what is carried of the event.** -/
theorem encode_decodes (event : Ie115.TranscriptionEvent) (audioSeconds : ℚ) :
    (∃ type, event = .other type ∧ (enc.encode hex ⟨event, none⟩ audioSeconds).1 = none) ∨
      ∃ frame, (enc.encode hex ⟨event, none⟩ audioSeconds).1 = some frame ∧
        (Call.frames event audioSeconds).event? = some event ∧ frame.isEvent = true ∧
        ∀ eventId afterCommit,
          decodeFrame (frame.toJson eventId) afterCommit = carried afterCommit event := by
  cases event with
  | other type => exact .inl ⟨type, rfl, rfl⟩
  | progress snippet phase warning warningCode =>
    refine .inr ⟨_, rfl, rfl, rfl, fun eventId afterCommit => ?_⟩
    rw [decodeFrame_status, carried, phaseToState_phase]
  | final text segments disposition segmentIndex =>
    refine .inr ⟨_, rfl, rfl, rfl, fun eventId afterCommit => ?_⟩
    rw [decodeFrame_delta, carried]
    split <;> rfl
  | done text segments =>
    refine .inr ⟨_, rfl, rfl, rfl, fun eventId afterCommit => ?_⟩
    rw [decodeFrame_completed, carried]
  | error code message =>
    exact .inr ⟨_, rfl, rfl, rfl, fun eventId afterCommit => decodeFrame_error ..⟩

/-! ## A run of calls -/

section Run

variable (stamp : ℕ → String) (after : ℕ → Bool)

/-- The events of frames that arrive from the `k`-th on; `after` says of each whether the client's
commit had gone out, and `stamp` is its `event_id`. -/
def decodeAll : ℕ → List Frame → List TranscriptionEvent
  | _, [] => []
  | k, frame :: frames =>
    decodeFrame (frame.toJson (stamp k)) (after k) ++ decodeAll (k + 1) frames

/-- What `after` says of the frames that carry an event. -/
def afterEvents : ℕ → List Frame → List Bool
  | _, [] => []
  | k, frame :: frames =>
    if frame.isEvent then after k :: afterEvents (k + 1) frames else afterEvents (k + 1) frames

variable {stamp after}

theorem decodeAll_append (frames more : List Frame) (k : ℕ) :
    decodeAll stamp after k (frames ++ more) =
      decodeAll stamp after k frames ++ decodeAll stamp after (k + frames.length) more := by
  induction frames generalizing k with
  | nil => rfl
  | cons frame frames ih =>
    rw [List.cons_append, decodeAll, decodeAll, ih, List.append_assoc, List.length_cons,
      Nat.add_assoc k 1, Nat.add_comm 1]

theorem afterEvents_append (frames more : List Frame) (k : ℕ) :
    afterEvents after k (frames ++ more) =
      afterEvents after k frames ++ afterEvents after (k + frames.length) more := by
  induction frames generalizing k with
  | nil => rfl
  | cons frame frames ih =>
    rw [List.cons_append, afterEvents, afterEvents, ih, List.length_cons, Nat.add_assoc k 1,
      Nat.add_comm 1]
    split <;> rfl

/-- Frames that carry no event decode to nothing. -/
theorem silent {frames : List Frame} (h : ∀ frame ∈ frames, frame.isEvent = false) (k : ℕ) :
    decodeAll stamp after k frames = [] ∧ afterEvents after k frames = [] := by
  induction frames generalizing k with
  | nil => exact ⟨rfl, rfl⟩
  | cons frame frames ih =>
    obtain ⟨hdecode, hafter⟩ := ih (fun f hf => h f (List.mem_cons_of_mem _ hf)) (k + 1)
    have hframe := h frame (by simp)
    rw [decodeAll, afterEvents, decodeFrame_of_not_isEvent hframe, hdecode, hafter, hframe]
    exact ⟨rfl, rfl⟩

/-- What waits to be announced carries no event. -/
def Announcing (enc : Encoder) : Prop := ∀ frame ∈ enc.announcements, frame.isEvent = false

theorem Announcing.mint (h : Announcing enc) : Announcing (enc.mint hex).2 := by
  intro frame hframe
  rcases List.mem_append.mp hframe with hframe | hframe
  · exact h frame hframe
  · rw [List.mem_singleton.mp hframe]
    rfl

theorem Announcing.item (h : Announcing enc) : Announcing (enc.item hex).2 := by
  unfold Encoder.item
  cases enc.current with
  | some item => exact h
  | none =>
    cases enc.queued with
    | cons item queued => exact h
    | nil => exact h.mint

theorem Announcing.encode (h : Announcing enc) (event : Ie115.TranscriptionEvent) (seconds : ℚ) :
    Announcing (enc.encode hex ⟨event, none⟩ seconds).2 := by
  cases event with
  | progress | error | other => exact h
  | final | done => exact h.item

/-- **One call**: its frames decode to what is carried of its event, if it encodes one. -/
theorem call_decodes (h : Announcing enc) (call : Call) (k : ℕ) :
    Announcing (enc.call hex call).2 ∧
      decodeAll stamp after k (enc.call hex call).1 =
        (List.zipWith carried (afterEvents after k (enc.call hex call).1)
          call.event?.toList).flatten ∧
      (afterEvents after k (enc.call hex call).1).length = call.event?.toList.length := by
  cases call with
  | beginUtterance =>
    refine ⟨?_, rfl, rfl⟩
    show Announcing enc.beginUtterance
    unfold Encoder.beginUtterance
    split <;> exact h
  | commitFrames =>
    have hmint : Announcing (enc.mint hex).2 := h.mint
    have hframes : ∀ frame ∈ (enc.commitFrames hex).1, frame.isEvent = false := by
      intro frame hframe
      unfold Encoder.commitFrames at hframe
      cases hun : enc.uncommitted with
      | some item =>
        rw [hun] at hframe
        rcases List.mem_cons.mp hframe with rfl | hframe
        · rfl
        · exact h frame hframe
      | none =>
        rw [hun] at hframe
        rcases List.mem_cons.mp hframe with rfl | hframe
        · rfl
        · exact hmint frame hframe
    obtain ⟨hdecode, hafter⟩ := @silent stamp after _ hframes k
    refine ⟨fun frame hframe => ?_, ?_, ?_⟩
    · cases hframe
    · show decodeAll stamp after k (enc.commitFrames hex).1 = _
      rw [hdecode]
      show [] = (List.zipWith carried (afterEvents after k (enc.commitFrames hex).1) []).flatten
      rw [List.zipWith_nil_right]
      rfl
    · show (afterEvents after k (enc.commitFrames hex).1).length = 0
      rw [hafter]
      rfl
  | frames event audioSeconds =>
    have hannouncing := @Announcing.encode hex _ h event audioSeconds
    have hcases := @encode_decodes hex enc event audioSeconds
    simp only [Encoder.call, Encoder.frames]
    generalize enc.encode hex ⟨event, none⟩ audioSeconds = result at hannouncing hcases
    obtain ⟨frame?, enc'⟩ := result
    rcases hcases with ⟨type, rfl, hnone⟩ | ⟨frame, hsome, hother, hevent, hdecode⟩
    · obtain rfl : frame? = none := hnone
      exact ⟨hannouncing, rfl, rfl⟩
    · obtain rfl : frame? = some frame := hsome
      obtain ⟨hsilent, hnone⟩ := @silent stamp after _ hannouncing k
      refine ⟨fun frame hframe => ?_, ?_, ?_⟩
      · cases hframe
      · show decodeAll stamp after k (enc'.announcements ++ [frame]) =
          (List.zipWith carried (afterEvents after k (enc'.announcements ++ [frame])) _).flatten
        rw [decodeAll_append, afterEvents_append, hsilent, hnone, hother, decodeAll, afterEvents,
          hevent, hdecode]
        rfl
      · show (afterEvents after k (enc'.announcements ++ [frame])).length = _
        rw [afterEvents_append, hnone, hother, afterEvents, hevent]
        rfl

/-- **A run of calls**: its frames decode to what is carried of its events, in order. Induction on
the calls. -/
theorem run_decodes (calls : List Call) {enc : Encoder} (h : Announcing enc) (k : ℕ) :
    decodeAll stamp after k (enc.run hex calls) =
        (List.zipWith carried (afterEvents after k (enc.run hex calls))
          (calls.filterMap Call.event?)).flatten ∧
      (afterEvents after k (enc.run hex calls)).length =
        (calls.filterMap Call.event?).length := by
  induction calls generalizing enc k with
  | nil => exact ⟨rfl, rfl⟩
  | cons call calls ih =>
    obtain ⟨hannouncing, hdecode, hlength⟩ :=
      @call_decodes hex _ stamp after h call k
    obtain ⟨hrest, hrestLength⟩ := ih hannouncing (k + (enc.call hex call).1.length)
    have hevents : (call :: calls).filterMap Call.event? =
        call.event?.toList ++ calls.filterMap Call.event? := by
      cases hevent : call.event? <;> simp [hevent]
    rw [Encoder.run, decodeAll_append, afterEvents_append, hdecode, hrest, hevents,
      List.zipWith_append hlength, List.flatten_append]
    refine ⟨rfl, ?_⟩
    rw [List.length_append, List.length_append, hlength, hrestLength]

end Run

/-- **What the client decodes is what the server encoded.** Over any calls of the encoder, whatever
the ids and stamps drawn and whenever the client's commit went out, the frames decode to what the
dialect carries of the events, one by one and in order; and an event written by `event_to_wire` is
read as the same event, if it is one of the four classes and its segment index has 32 bits. -/
theorem decoded_eq :
    (∀ (hex stamp : ℕ → String) (after : ℕ → Bool) (calls : List Call),
      decodeAll stamp after 0 (Encoder.run hex {} calls) =
          (List.zipWith carried (afterEvents after 0 (Encoder.run hex {} calls))
            (calls.filterMap Call.event?)).flatten ∧
        (afterEvents after 0 (Encoder.run hex {} calls)).length =
          (calls.filterMap Call.event?).length) ∧
      ∀ e, (∃ c, fromWire (eventToWire e) = .ok (some c) ∧ Same e c) ↔ Fits e := by
  refine ⟨fun hex stamp after calls => run_decodes calls ?_ 0, fromWire_eventToWire⟩
  intro frame hframe
  cases hframe

/-- A `done` without text that overtakes the client's commit does not come back, and the error of a
language that is not supported comes back as that of any bad parameter. -/
theorem language_code_lost :
    decodeAll (fun _ => "event") (fun _ => false) 0 (Encoder.run (fun _ => "0") {}
        [.frames (.done "" []) 0, .beginUtterance,
          .frames (.error "language_not_supported" "no Klingon") 0]) ≠
      [.done { text := "" },
        .error { code := "language_not_supported", message := "no Klingon" }] := by
  have hdecoded : decodeAll (fun _ => "event") (fun _ => false) 0 (Encoder.run (fun _ => "0") {}
      [.frames (.done "" []) 0, .beginUtterance,
        .frames (.error "language_not_supported" "no Klingon") 0]) =
      [.error { code := "invalid_parameter", message := "no Klingon" }] := rfl
  rw [hdecoded]
  decide

end Client

end Myna

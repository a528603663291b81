import Myna.Orchestrator.TransportRuns

/-!
# Myna — a session in the framing of IE115

What both ends of a session make of each other through the pump.

* **`answer_or_reset`** — whether a `completed` without text ends the session;
* **`session_is_heard`** — what the model hears of what the sinks accepted;
* **`transcript_is_heard`** — what the owner of the events hears of what the server encoded.
-/

namespace Myna

namespace Transport

open Myna.Client (TranscriptionEvent decodeFrame carried decodeAll afterEvents run_decodes)
open Myna.SessionWire (Outbound Message readFrames heard utterance)
open Myna.Ie115 (Frame Call Encoder)
open UpTo (upTo)

variable {fromStr : String → Except String Json} {outboundCapacity eventCapacity : ℕ}
  {base64Audio : Bool} {s : Session Ie115}

/-! ## What the dialect knows -/

theorem told_ie115 (d : Ie115) (items : List Outbound) :
    (ie115 fromStr).told d items =
      { d with afterCommit := d.afterCommit || items.any isFinish } := by
  induction items generalizing d with
  | nil => simp [Dialect.told]
  | cons item items ih =>
    show (ie115 fromStr).told { d with afterCommit := d.afterCommit || isFinish item } items = _
    rw [ih, List.any_cons, Bool.or_assoc]

theorem stream_ie115 (d : Ie115) (items : List Outbound) :
    (ie115 fromStr).stream d items = items.map (Outbound.encode d.base64Audio) := by
  induction items generalizing d with
  | nil => rfl
  | cons item items ih =>
    show Outbound.encode d.base64Audio item :: (ie115 fromStr).stream _ items = _
    rw [ih]
    rfl

theorem any_isFinish {items : List Outbound} :
    items.any isFinish = true ↔ Outbound.finish ∈ items := by
  rw [List.any_eq_true]
  constructor
  · rintro ⟨item, hmem, hfinish⟩
    cases item with
    | finish => exact hmem
    | audio chunk => cases hfinish
  · exact fun hmem => ⟨.finish, hmem, rfl⟩

/-- The flag of a frame's dialect: up once the peer had the commit, and down until the commit was
on the wire. -/
theorem afterCommit_of_informed {accepted : List Outbound} {onWire : ℕ} {read : Arrival × Ie115}
    (h : Informed (ie115 fromStr) { base64Audio } accepted onWire read) :
    (.finish ∈ accepted.take read.1.seen → read.2.afterCommit = true) ∧
      (read.2.afterCommit = true → .finish ∈ accepted.take onWire) := by
  obtain ⟨items, hitems, hseen, hlength, htold⟩ := h
  have hflag : read.2.afterCommit = items.any isFinish := by
    rw [htold, told_ie115]
    exact Bool.false_or _
  rw [hflag, any_isFinish, List.prefix_iff_eq_take.mp hitems]
  exact ⟨fun hmem => List.take_subset_take_left _ hseen hmem,
    fun hmem => List.take_subset_take_left _ hlength hmem⟩

theorem results_text (d : Ie115) {text : String} {value : Json}
    (hvalue : fromStr text = .ok value) :
    results (ie115 fromStr) d (.text text) = (decodeFrame value d.afterCommit).map .ok := by
  simp only [results, ie115, readJson, hvalue, Except.map]

/-- **An answer to the commit is not taken for a reset, nor a reset for an answer**: a `completed`
without text that the peer sends once it has received the commit ends the session, and one that is
read while the commit is not on the wire comes to nothing. -/
theorem answer_or_reset
    (h : Reachable (ie115 fromStr) outboundCapacity eventCapacity { base64Audio } s)
    {arrival : Arrival} {d : Ie115} (hread : (arrival, d) ∈ s.read) {text : String} {value : Json}
    (htext : arrival.incoming = .text text) (hvalue : fromStr text = .ok value)
    (htype : Client.text value "type" =
      some "conversation.item.input_audio_transcription.completed")
    (hempty : (Client.text value "transcript").getD "" = "") :
    (.finish ∈ s.accepted.take arrival.seen →
      results (ie115 fromStr) d arrival.incoming = [.ok (.done { text := "" })]) ∧
    (.finish ∉ s.accepted.take s.wire.length →
      results (ie115 fromStr) d arrival.incoming = []) := by
  obtain ⟨hafter, hbefore⟩ := afterCommit_of_informed (h.inv.informed _ hread)
  have hdecoded : decodeFrame value d.afterCommit =
      if d.afterCommit = false then [] else [.done { text := "" }] := by
    unfold decodeFrame
    rw [htype]
    show Client.decodeCompleted value d.afterCommit = _
    rw [Client.decodeCompleted]
    simp only [hempty, true_and]
  rw [htext, results_text d hvalue, hdecoded]
  constructor
  · intro hmem
    rw [hafter hmem]
    rfl
  · intro hmem
    rw [if_pos (Bool.eq_false_of_not_eq_true fun hflag => hmem (hbefore hflag))]
    rfl

/-- An answer to the commit with no text in it, and how it is read. -/
def noSpeech : String :=
  "\x7b\"type\":\"conversation.item.input_audio_transcription.completed\",\"transcript\":\"\"\x7d"

def noSpeechJson : Json :=
  .obj [("type", .str "conversation.item.input_audio_transcription.completed"),
    ("transcript", .str "")]

def readNoSpeech (text : String) : Except String Json :=
  if text = noSpeech then .ok noSpeechJson else .error "no JSON"

/-- A run in which one chunk and the commit are written, and the peer answers to both. -/
theorem reachable_noSpeech (chunk : PcmChunk) :
    ∃ s, Reachable (ie115 readNoSpeech) 16 64 { base64Audio := true } s ∧
      s.accepted = [.audio chunk, .finish] ∧ s.wire.length = 2 ∧
      (⟨2, .text noSpeech⟩, { base64Audio := true, afterCommit := true }) ∈ s.read :=
  ⟨_, ((((((((((Relation.ReflTransGen.refl.tail
    ⟨_, .reserve (.audio chunk) rfl rfl (by decide)⟩).tail
    ⟨_, .reserve .finish rfl rfl (by simp)⟩).tail
    ⟨_, .queue rfl rfl rfl rfl rfl⟩).tail
    ⟨_, .flush (.ok ()) rfl rfl rfl⟩).tail
    ⟨_, .written rfl rfl rfl rfl⟩).tail
    ⟨_, .queue rfl rfl rfl rfl rfl⟩).tail
    ⟨_, .flush (.ok ()) rfl rfl rfl⟩).tail
    ⟨_, .arrive 2 (.text noSpeech) le_rfl⟩).tail
    ⟨_, .written rfl rfl rfl rfl⟩).tail
    ⟨_, .read rfl rfl rfl rfl⟩), rfl, rfl, List.mem_singleton_self _⟩

theorem answer_noSpeech :
    ∃ s, Reachable (ie115 readNoSpeech) 16 64 { base64Audio := true } s ∧
      (⟨2, .text noSpeech⟩, ⟨true, true⟩) ∈ s.read ∧
      results (ie115 readNoSpeech) ⟨true, true⟩ (.text noSpeech) =
        [.ok (.done { text := "" })] := by
  obtain ⟨s, h, haccepted, -, hread⟩ := reachable_noSpeech ⟨[1, 2], {}⟩
  have hvalue : readNoSpeech noSpeech = .ok noSpeechJson := if_pos rfl
  refine ⟨s, h, hread, (answer_or_reset h hread rfl hvalue rfl rfl).1 ?_⟩
  rw [haccepted]
  decide

/-! ## What the model hears -/

section

variable {K : Type*} [Field K] [LinearOrder K] [FloorRing K] [IsStrictOrderedRing K]

/-- **What the model hears is what the sinks accepted**: whatever has happened in between, when a
commit is the last item on the wire, the server has put the audio of every utterance into the
ingress, converted as if it had come in one piece. -/
theorem session_is_heard (kernel : Kernel K) {srcHz dstHz : ℤ} {r : Resampler K}
    (hnew : Resampler.new kernel srcHz dstHz = .ok r)
    (h : Reachable (ie115 fromStr) outboundCapacity eventCapacity { base64Audio } s)
    {spoken : List (List PcmChunk)}
    (hwire : s.accepted.take s.wire.length =
      spoken.flatMap fun chunks => chunks.map .audio ++ [.finish]) :
    ∃ puts, readFrames r s.wire = some (puts, r) ∧
      (heard [] puts).map some = spoken.map fun chunks =>
        (r.convert [(chunks.map PcmChunk.data).flatten]).map Prod.fst := by
  obtain ⟨done, held, haccepted, hstream, -⟩ := h.inv.outward
  have hdone : s.accepted.take s.wire.length = done := by
    rw [hstream, Dialect.length_stream, haccepted, List.take_left']
    rfl
  have hframes : s.wire =
      (spoken.map fun chunks => chunks.map (base64Audio, ·)).flatMap utterance := by
    rw [hstream, stream_ie115, ← hdone, hwire, List.flatMap_map, List.map_flatMap]
    refine List.flatMap_congr fun chunks _ => ?_
    rw [List.map_append, List.map_map, utterance, List.map_map]
    rfl
  obtain ⟨puts, hread, hheard⟩ := SessionWire.model_hears kernel hnew
    (spoken.map fun chunks => chunks.map (base64Audio, ·))
  rw [← hframes] at hread
  refine ⟨puts, hread, hheard.trans ?_⟩
  rw [List.map_map]
  refine List.map_congr_left fun chunks _ => ?_
  rw [Function.comp_apply, List.map_map]
  rfl

theorem noSpeech_is_heard :
    let r : Resampler ℝ := .start (.make .real (.reduce 24000 16000 (by decide) (by decide)))
    ∃ s, Reachable (ie115 readNoSpeech) 16 64 { base64Audio := true } s ∧
      ∃ puts, readFrames r s.wire = some (puts, r) ∧
        (heard [] puts).map some = [[(⟨[16, 0, 32, 0], {}⟩ : PcmChunk)]].map fun chunks =>
          (r.convert [(chunks.map PcmChunk.data).flatten]).map Prod.fst := by
  obtain ⟨s, h, haccepted, hlength, -⟩ := reachable_noSpeech ⟨[16, 0, 32, 0], {}⟩
  refine ⟨s, h, session_is_heard .real (show Resampler.new .real 24000 16000 = .ok _ from rfl) h ?_⟩
  rw [haccepted, hlength]
  rfl

end

/-! ## What the owner of the events hears -/

section

variable (fromStr) (stamp : ℕ → String)

def isCompleted : Frame → Bool
  | .completed .. => true
  | _ => false

/-- What has arrived, from the `k`-th on, are the first of `frames` as JSON; and the server
completes an utterance once it has its commit. -/
def Sent (accepted : List Outbound) : ℕ → List Arrival → List Frame → Prop
  | _, [], _ => True
  | _, _ :: _, [] => False
  | k, arrival :: arrivals, frame :: frames =>
    (∃ text, arrival.incoming = .text text ∧ fromStr text = .ok (frame.toJson (stamp k))) ∧
      (isCompleted frame = true → .finish ∈ accepted.take arrival.seen) ∧
      Sent accepted (k + 1) arrivals frames

end

variable {stamp : ℕ → String}

/-- The events of a server, as the dialect carries them, up to the first that ends a session. -/
def transcript (calls : List Call) : List TranscriptionEvent :=
  upTo TranscriptionEvent.isTerminal ((calls.filterMap Call.event?).flatMap (carried true))

/-- The flag matters to a `completed` only. -/
theorem decodeFrame_flag {frame : Frame} {afterCommit : Bool}
    (h : isCompleted frame = true → afterCommit = true) (eventId : String) :
    decodeFrame (frame.toJson eventId) afterCommit = decodeFrame (frame.toJson eventId) true := by
  cases frame with
  | completed => rw [h rfl]
  | status | delta => simp only [Client.decodeFrame_status, Client.decodeFrame_delta]
  | committed | created | error => rfl

theorem afterEvents_true (frames : List Frame) (k : ℕ) :
    ∀ after ∈ afterEvents (fun _ => true) k frames, after = true := by
  induction frames generalizing k with
  | nil => exact fun _ h => absurd h List.not_mem_nil
  | cons frame frames ih =>
    intro after hafter
    rw [afterEvents] at hafter
    split at hafter
    · rcases List.mem_cons.mp hafter with rfl | hrest
      · rfl
      · exact ih (k + 1) after hrest
    · exact ih (k + 1) after hafter

theorem zipWith_carried {after : List Bool} {events : List Ie115.TranscriptionEvent}
    (hafter : ∀ b ∈ after, b = true) (hlength : after.length = events.length) :
    List.zipWith carried after events = events.map (carried true) := by
  induction events generalizing after with
  | nil => exact List.zipWith_nil_right
  | cons event events ih =>
    cases after with
    | nil => cases hlength
    | cons b after =>
      obtain ⟨rfl, hrest⟩ := List.forall_mem_cons.mp hafter
      rw [List.zipWith_cons_cons, ih hrest (Nat.succ.inj hlength), List.map_cons]

theorem decodeAll_run (hex : ℕ → String) (calls : List Call) :
    decodeAll stamp (fun _ => true) 0 (Encoder.run hex {} calls) =
      (calls.filterMap Call.event?).flatMap (carried true) := by
  have hannouncing : Client.Announcing {} := fun frame hframe => absurd hframe List.not_mem_nil
  obtain ⟨hdecode, hlength⟩ := @run_decodes hex stamp (fun _ => true) calls {} hannouncing 0
  rw [hdecode, zipWith_carried (afterEvents_true _ _) hlength]
  rfl

theorem sent_read {accepted : List Outbound} {k : ℕ} {arrivals more : List Arrival}
    {frames : List Frame} (h : Sent fromStr stamp accepted k (arrivals ++ more) frames) :
    Sent fromStr stamp accepted k arrivals frames := by
  induction arrivals generalizing k frames with
  | nil => exact trivial
  | cons arrival arrivals ih =>
    cases frames with
    | nil => cases h
    | cons frame frames => exact ⟨h.1, h.2.1, ih h.2.2⟩

/-- The frames that have been read decode to the first of the server's events. -/
theorem results_sent {accepted : List Outbound} {onWire k : ℕ} {read : List (Arrival × Ie115)}
    {frames : List Frame}
    (hinformed : ∀ r ∈ read, Informed (ie115 fromStr) { base64Audio } accepted onWire r)
    (hsent : Sent fromStr stamp accepted k (read.map Prod.fst) frames) :
    ∃ said more, decodeAll stamp (fun _ => true) k frames = said ++ more ∧
      read.flatMap (fun r => results (ie115 fromStr) r.2 r.1.incoming) = said.map .ok := by
  induction read generalizing k frames with
  | nil => exact ⟨[], _, rfl, rfl⟩
  | cons r read ih =>
    cases frames with
    | nil => cases hsent
    | cons frame frames =>
      obtain ⟨⟨text, htext, hvalue⟩, hcompleted, hrest⟩ := hsent
      rw [List.forall_mem_cons] at hinformed
      obtain ⟨said, more, hdecoded, hread⟩ := ih hinformed.2 hrest
      have hflag := fun h => (afterCommit_of_informed hinformed.1).1 (hcompleted h)
      refine ⟨decodeFrame (frame.toJson (stamp k)) true ++ said, more, ?_, ?_⟩
      · rw [decodeAll, hdecoded, List.append_assoc]
      · rw [List.flatMap_cons, hread, htext, results_text _ hvalue, decodeFrame_flag hflag,
          List.map_append]

theorem toOption_map_ok (events : List TranscriptionEvent) :
    (events.map (.ok : TranscriptionEvent → Result)).filterMap Except.toOption = events := by
  rw [List.filterMap_map]
  exact List.filterMap_some

/-- The error of a write ends a session, and is no event. -/
theorem events_upTo (said more : List TranscriptionEvent) (error : Option String) :
    (upTo ends (said.map .ok ++
      (error.map fun error => .error (.transport error)).toList)).filterMap Except.toOption <+:
      upTo TranscriptionEvent.isTerminal (said ++ more) := by
  by_cases hterminal : ∃ event ∈ said, event.isTerminal = true
  · obtain ⟨event, hmem, hevent⟩ := hterminal
    have hends : ends (.ok event) = true := hevent
    rw [UpTo.upTo_append_of_mem (List.mem_map_of_mem hmem) hends, UpTo.upTo_map, toOption_map_ok,
      UpTo.upTo_append_of_mem hmem hevent]
    exact List.prefix_rfl
  · push Not at hterminal
    have hgoes : ∀ event ∈ said, event.isTerminal = false :=
      fun event hmem => Bool.eq_false_of_not_eq_true (hterminal event hmem)
    have hresults : ∀ r ∈ said.map (.ok : TranscriptionEvent → Result), ends r = false :=
      List.forall_mem_map.mpr hgoes
    have hsilent : (upTo ends (error.map fun error =>
        (.error (.transport error) : Result)).toList).filterMap Except.toOption = [] := by
      cases error <;> rfl
    rw [UpTo.upTo_append hresults, UpTo.upTo_append hgoes, List.filterMap_append, toOption_map_ok,
      hsilent, List.append_nil]
    exact List.prefix_append _ _

/-- **What the owner of the events hears is what the server encoded**: in every run of the pump
against a server that completes an utterance once it has its commit, the events that have been
heard are the first of the server's, in order, as the dialect carries them; and once the end of the
transcript is among them they are all. -/
theorem transcript_is_heard (hex : ℕ → String) {calls : List Call}
    (h : Reachable (ie115 fromStr) outboundCapacity eventCapacity { base64Audio } s)
    (hsent : Sent fromStr stamp s.accepted 0 s.arrived (Encoder.run hex {} calls)) :
    (s.heard ++ s.events).filterMap Except.toOption <+: transcript calls ∧
      ∀ event ∈ (s.heard ++ s.events).filterMap Except.toOption, event.isTerminal = true →
        (s.heard ++ s.events).filterMap Except.toOption = transcript calls := by
  suffices hheard : (s.heard ++ s.events).filterMap Except.toOption <+: transcript calls from
    ⟨hheard, fun event hevent hterminal => UpTo.eq_of_prefix hheard hevent hterminal⟩
  have hinv := h.inv
  rw [hinv.arrived] at hsent
  obtain ⟨said, more, hdecoded, hread⟩ := results_sent hinv.informed (sent_read hsent)
  refine (hinv.inward.sent_prefix.filterMap Except.toOption).trans ?_
  rw [transcript, ← decodeAll_run hex, hdecoded, Session.meant, hread]
  exact events_upTo said more s.expired

/-- The one frame of a server that has no model, and how it is read. -/
def noModel : String :=
  "\x7b\"type\":\"error\",\"error\":\x7b\"type\":\"server_error\",\"code\":" ++
    "\"server_error\",\"message\":\"no model\"\x7d,\"event_id\":\"event_1\"\x7d"

def readNoModel (text : String) : Except String Json :=
  if text = noModel then
    .ok ((Frame.error "server_error" "server_error" "no model").toJson "event_1")
  else .error "no JSON"

theorem reachable_noModel :
    ∃ s, Reachable (ie115 readNoModel) 16 64 { base64Audio := false } s ∧
      s.heard = [.ok (.error { code := "server_error", message := "no model" })] ∧
      s.events = [] ∧ s.arrived = [⟨0, .text noModel⟩] :=
  ⟨_, (((Relation.ReflTransGen.refl.tail
    ⟨_, .arrive 0 (.text noModel) (Nat.zero_le _)⟩).tail
    ⟨_, .read rfl rfl rfl rfl⟩).tail
    ⟨_, .send rfl rfl (by decide)⟩).tail
    ⟨_, .next rfl⟩, rfl, rfl, rfl⟩

theorem noModel_is_heard :
    ∃ s, Reachable (ie115 readNoModel) 16 64 { base64Audio := false } s ∧
      (s.heard ++ s.events).filterMap Except.toOption =
        transcript [.frames (.error "model_failed" "no model") 0, .commitFrames] := by
  obtain ⟨s, h, hheard, hevents, harrived⟩ := reachable_noModel
  have hvalue : readNoModel noModel =
      .ok ((Frame.error "server_error" "server_error" "no model").toJson "event_1") := if_pos rfl
  have hsent : Sent readNoModel (fun _ => "event_1") s.accepted 0 s.arrived
      (Encoder.run (fun _ => "0") {}
        [.frames (.error "model_failed" "no model") 0, .commitFrames]) := by
    rw [harrived]
    exact ⟨⟨noModel, rfl, hvalue⟩, fun h => absurd h Bool.false_ne_true, trivial⟩
  refine ⟨s, h, (transcript_is_heard (fun _ => "0") h hsent).2
    (.error { code := "server_error", message := "no model" }) ?_ rfl⟩
  rw [hheard, hevents]
  exact List.mem_singleton_self _

end Transport

end Myna

import Myna.Orchestrator.Driver

/-!
# Myna — the pump of a capture (`pump_capture` of `myna_orchestrator::runner`)

The pump selects among the health of the source, room at the driver and the audio of the source. It
moves the audio on, and tells the driver how capture ended: by its end, by a fault with audio behind
it, or by a fault with none. `next` is one turn of its loop, `Account` what the log of a run says of
the locals it led to, and `pump_accounts` the account of every ending.
-/

namespace Myna

namespace Orchestrator

namespace Failure

/-- The headline for a capture fault. -/
def captureHeadline (tr : String → String) : CaptureError → String
  | .deviceUnavailable _ => tr "Microphone unavailable"
  | .serviceUnresponsive _ => tr "Audio system not responding"
  | .noSource _ => tr "No microphone found"
  | .noFlow _ => tr "Microphone silent"
  | .unsupportedFormat _ => tr "Microphone format unsupported"
  | .backend _ => tr "Audio system error"
  | .overloaded _ => tr "System overloaded"

def capture (tr : String → String) (fault : CaptureError) : Failure :=
  ⟨captureHeadline tr fault, fault.toString⟩

/-- A capture fault an utterance was salvaged from. -/
def audioLost (tr : String → String) (fault : CaptureError) : Failure :=
  ⟨tr "Some audio lost", s!"some audio was lost: {fault.toString}"⟩

end Failure

/-- What the select of the pump wakes up for. -/
inductive Poll
  | health (state : Option CaptureHealth)
  | permit (granted : Bool)
  | stream (item : Option (Except CaptureError PcmChunk))

/-- A poll after which a side is not polled again. -/
def Poll.lastOfStream : Poll → Bool
  | .stream none => true
  | .stream (some (.error _)) => true
  | _ => false

def Poll.lastOfHealth : Poll → Bool
  | .health none => true
  | .health (some (.faulted _)) => true
  | _ => false

/-- What the pump sends to the driver. -/
inductive Sent
  | audio (input : OrchestratorInput)
  | control (control : OrchestratorControl)
deriving DecidableEq

/-- The locals of `pump_capture`. -/
structure Pump where
  healthOpen : Bool := true
  streamOpen : Bool := true
  ended : Bool := false
  accepted : Bool := false
  fault : Option CaptureError := none
  reported : Bool := false
  pending : Option OrchestratorInput := none

/-- Where `pump_capture` is: in its loop, or past its end. -/
inductive Stage
  | running (p : Pump)
  | returned
  | driverGone

namespace Pump

/-- `fault.get_or_insert(err)`. -/
def latch (p : Pump) (err : CaptureError) : Pump := { p with fault := some (p.fault.getD err) }

/-- The select: the branch of a poll, if it is enabled. -/
def select (p : Pump) : Poll → Option (List Sent × Stage)
  | .health state =>
    if p.healthOpen then some (match state with
      | some (.faulted err) => ([], .running ({ p with healthOpen := false }.latch err))
      | some .ended =>
        if p.ended then ([], .running p)
        else ([.control .captureEnded], .running { p with ended := true })
      | some _ => ([], .running p)
      | none => ([], .running { p with healthOpen := false }))
    else none
  | .permit granted => p.pending.map fun item =>
    if granted then
      ([.audio item], if item = .endOfAudio then .returned else .running { p with pending := none })
    else ([], .driverGone)
  | .stream item =>
    if p.streamOpen ∧ p.pending.isNone then some ([], .running (match item with
      | some (.ok chunk) => { p with accepted := true, pending := some (.audio chunk) }
      | some (.error err) => { p with streamOpen := false }.latch err
      | none => { p with streamOpen := false }))
    else none

variable (tr : String → String)

/-- A fault with audio behind it is announced once. -/
def announce (p : Pump) : List Sent × Pump :=
  if p.accepted ∧ p.reported = false then
    match p.fault with
    | some err => ([.control (.captureLost (Failure.audioLost tr err))],
        { p with reported := true, ended := true })
    | none => ([], p)
  else ([], p)

/-- The end of audio goes behind what was accepted. -/
def queueEnd (p : Pump) : List Sent × Stage :=
  (if p.ended then [] else [.control .captureEnded],
    .running { p with fault := none, ended := true, pending := some .endOfAudio })

/-- Capture is over: with no audio accepted, a fault is the whole story. -/
def conclude (p : Pump) : List Sent × Stage :=
  if p.streamOpen = false ∧ p.pending = none then
    match p.fault with
    | some err =>
      if p.accepted then p.queueEnd
      else ([.control (.captureFailed (Failure.capture tr err))], .returned)
    | none => p.queueEnd
  else ([], .running p)

/-- What follows the select. -/
def settle (p : Pump) : List Sent × Stage :=
  let (lost, p) := p.announce tr
  let (last, stage) := p.conclude tr
  (lost ++ last, stage)

/-- One turn of the loop. -/
def next (p : Pump) (poll : Poll) : Option (List Sent × Stage) :=
  (p.select poll).map fun (out, stage) =>
    match stage with
    | .running p => (out ++ (p.settle tr).1, (p.settle tr).2)
    | stage => (out, stage)

/-! ## Runs -/

/-- What happened: a branch was taken, or something was sent. -/
inductive Event
  | polled (poll : Poll)
  | sent (message : Sent)

structure Run where
  log : List Event
  stage : Stage

def Run.init : Run := ⟨[], .running {}⟩

def Run.Step (r r' : Run) : Prop :=
  ∃ p poll out, r.stage = .running p ∧ p.next tr poll = some (out, r'.stage) ∧
    r'.log = r.log ++ .polled poll :: out.map .sent

/-- The chunks the stream has yielded. -/
def chunks (log : List Event) : List PcmChunk :=
  log.filterMap fun | .polled (.stream (some (.ok chunk))) => some chunk | _ => none

/-- The faults seen, on either side. -/
def faults (log : List Event) : List CaptureError :=
  log.filterMap fun
    | .polled (.health (some (.faulted err))) => some err
    | .polled (.stream (some (.error err))) => some err
    | _ => none

/-- What the driver was sent as ordered input. -/
def audioSent (log : List Event) : List OrchestratorInput :=
  log.filterMap fun | .sent (.audio input) => some input | _ => none

def controlSent (log : List Event) : List OrchestratorControl :=
  log.filterMap fun | .sent (.control control) => some control | _ => none

def StreamEnded (log : List Event) : Prop := ∃ poll, .polled poll ∈ log ∧ poll.lastOfStream = true

def HealthEnded (log : List Event) : Prop := ∃ poll, .polled poll ∈ log ∧ poll.lastOfHealth = true

/-- The log up to the end of the stream. -/
def upToEnd : List Event → List Event
  | [] => []
  | .polled poll :: rest =>
    if poll.lastOfStream then [.polled poll] else .polled poll :: upToEnd rest
  | .sent message :: rest => .sent message :: upToEnd rest

def isLost : OrchestratorControl → Bool
  | .captureLost _ => true
  | _ => false

def isFailed : OrchestratorControl → Bool
  | .captureFailed _ => true
  | _ => false

theorem eq_of_isLost {m : OrchestratorControl} (h : isLost m = true) :
    ∃ fault, m = .captureLost fault := by
  unfold isLost at h
  split at h
  · exact ⟨_, rfl⟩
  · cases h

theorem eq_of_isFailed {m : OrchestratorControl} (h : isFailed m = true) :
    ∃ fault, m = .captureFailed fault := by
  unfold isFailed at h
  split at h
  · exact ⟨_, rfl⟩
  · cases h

/-- What an event owes to its past. -/
def Obeys (tr : String → String) (past : List Event) : Event → Prop
  | .polled (.stream _) => ¬ StreamEnded past
  | .polled (.health _) => ¬ HealthEnded past
  | .sent (.control .captureEnded) =>
    .captureEnded ∉ controlSent past ∧ ∀ fault, .captureLost fault ∉ controlSent past
  | .sent (.control (.captureLost fault)) => (∀ fault, .captureLost fault ∉ controlSent past) ∧
    chunks past ≠ [] ∧ ∃ err, (faults past).head? = some err ∧ fault = Failure.audioLost tr err
  | .sent (.control (.captureFailed fault)) => (∀ fault, .captureFailed fault ∉ controlSent past) ∧
    chunks past = [] ∧ audioSent past = [] ∧ StreamEnded past ∧ ∃ err, (faults past).head?
      = some err ∧ fault = Failure.capture tr err
  | .sent (.control .abort) => False
  | .sent (.audio _) => .endOfAudio ∉ audioSent past
  | .polled (.permit _) => True

@[simp] theorem chunks_append (l l' : List Event) : chunks (l ++ l') = chunks l ++ chunks l' :=
  List.filterMap_append

@[simp] theorem faults_append (l l' : List Event) : faults (l ++ l') = faults l ++ faults l' :=
  List.filterMap_append

@[simp] theorem audioSent_append (l l' : List Event) :
    audioSent (l ++ l') = audioSent l ++ audioSent l' := List.filterMap_append

@[simp] theorem controlSent_append (l l' : List Event) :
    controlSent (l ++ l') = controlSent l ++ controlSent l' := List.filterMap_append

theorem streamEnded_append {l l' : List Event} :
    StreamEnded (l ++ l') ↔ StreamEnded l ∨ StreamEnded l' := by
  simp only [StreamEnded, List.mem_append, or_and_right, exists_or]

theorem healthEnded_append {l l' : List Event} :
    HealthEnded (l ++ l') ↔ HealthEnded l ∨ HealthEnded l' := by
  simp only [HealthEnded, List.mem_append, or_and_right, exists_or]

@[simp] theorem streamEnded_polled {poll : Poll} :
    StreamEnded [.polled poll] ↔ poll.lastOfStream = true := by
  simp [StreamEnded]

@[simp] theorem healthEnded_polled {poll : Poll} :
    HealthEnded [.polled poll] ↔ poll.lastOfHealth = true := by
  simp [HealthEnded]

@[simp] theorem not_streamEnded_sent (out : List Sent) : ¬ StreamEnded (out.map .sent) := by
  simp [StreamEnded]

@[simp] theorem not_healthEnded_sent (out : List Sent) : ¬ HealthEnded (out.map .sent) := by
  simp [HealthEnded]

@[simp] theorem chunks_sent (out : List Sent) : chunks (out.map .sent) = [] := by
  simp [chunks, List.filterMap_map]

@[simp] theorem faults_sent (out : List Sent) : faults (out.map .sent) = [] := by
  simp [faults, List.filterMap_map]

theorem upToEnd_append_of_ended {l : List Event} (h : StreamEnded l) (l' : List Event) :
    upToEnd (l ++ l') = upToEnd l := by
  induction l with
  | nil =>
    obtain ⟨poll, hmem, -⟩ := h
    cases hmem
  | cons e rest ih =>
    have hrest : ¬ StreamEnded [e] → StreamEnded rest := fun hnot =>
      (streamEnded_append.mp (show StreamEnded ([e] ++ rest) from h)).resolve_left hnot
    cases e with
    | polled poll =>
      rw [List.cons_append, upToEnd, upToEnd]
      split_ifs with hlast
      · rfl
      · rw [ih (hrest (by rwa [streamEnded_polled]))]
    | sent message =>
      rw [List.cons_append, upToEnd, upToEnd, ih (hrest (not_streamEnded_sent [message]))]

theorem upToEnd_append_of_not {l : List Event} (h : ¬ StreamEnded l) (l' : List Event) :
    upToEnd (l ++ l') = l ++ upToEnd l' := by
  induction l with
  | nil => rfl
  | cons e rest ih =>
    have hsplit : ¬ StreamEnded [e] ∧ ¬ StreamEnded rest := by
      rw [← not_or, ← streamEnded_append]
      exact h
    cases e with
    | polled poll =>
      rw [List.cons_append, upToEnd, if_neg (by simpa using hsplit.1), ih hsplit.2,
        List.cons_append]
    | sent message => rw [List.cons_append, upToEnd, ih hsplit.2, List.cons_append]

/-! ## The account -/

/-- What the log says of the locals within a turn, after the select. -/
structure Turn (tr : String → String) (log : List Event) (p : Pump) : Prop where
  lawful : History.Lawful (Obeys tr) log
  /-- What was sent, and what waits, is what the stream yielded, and then its end. -/
  audio : audioSent log ++ p.pending.toList = (chunks log).map .audio ++
    if p.streamOpen = false ∧ p.pending.isSome then [.endOfAudio] else []
  accepted : p.accepted = true ↔ chunks log ≠ []
  stream : p.streamOpen = false ↔ StreamEnded log
  health : p.healthOpen = false ↔ HealthEnded log
  ended : .captureEnded ∈ controlSent log → p.ended = true
  failed : ∀ fault, .captureFailed fault ∉ controlSent log
  reported : p.reported = true ↔ ∃ fault, .captureLost fault ∈ controlSent log
  backed : p.reported = true → p.ended = true ∧ chunks log ≠ [] ∧ faults log ≠ []
  /-- The fault that is latched is the first one seen. -/
  first : p.reported = false → p.fault = (faults log).head?
  fresh : p.streamOpen = false → p.pending = none → faults (upToEnd log) = faults log
  clean : p.streamOpen = false → p.pending.isSome → chunks log = [] → faults (upToEnd log) = []

/-- What the log says of the locals between two turns. -/
structure Account (tr : String → String) (log : List Event) (p : Pump) : Prop
    extends Turn tr log p where
  slot : p.pending = none → p.streamOpen = true
  due : p.reported = false → chunks log ≠ [] → faults log = []

section

variable {tr : String → String} {log : List Event} {p : Pump}

/-- A poll of the health feed. It may show a first fault, and end the feed. -/
theorem Account.health_poll (h : Account tr log p) (hopen : p.healthOpen = true)
    (state : Option CaptureHealth) {p' : Pump}
    (hsame : p'.streamOpen = p.streamOpen ∧ p'.ended = p.ended ∧ p'.accepted = p.accepted ∧
      p'.reported = p.reported ∧ p'.pending = p.pending)
    (hhealth : p'.healthOpen = false ↔ Poll.lastOfHealth (.health state) = true)
    (hfirst : p.fault = (faults log).head? →
      p'.fault = (faults (log ++ [.polled (.health state)])).head?) :
    Turn tr (log ++ [.polled (.health state)]) p' := by
  obtain ⟨hstream, hended, haccepted, hreported, hpending⟩ := hsame
  have hnot : ¬ HealthEnded log := by
    rw [← h.health, hopen]
    decide
  have hchunks : chunks (log ++ [.polled (.health state)]) = chunks log := by
    rw [chunks_append]
    exact List.append_nil _
  have haudio : audioSent (log ++ [.polled (.health state)]) = audioSent log := by
    rw [audioSent_append]
    exact List.append_nil _
  have hcontrol : controlSent (log ++ [.polled (.health state)]) = controlSent log := by
    rw [controlSent_append]
    exact List.append_nil _
  have hends : StreamEnded (log ++ [.polled (.health state)]) ↔ StreamEnded log := by
    rw [streamEnded_append, streamEnded_polled]
    simp [Poll.lastOfStream]
  refine ⟨History.lawful_concat.mpr ⟨h.lawful, hnot⟩, ?_, ?_, ?_, ?_, ?_, ?_, ?_, ?_, ?_, ?_, ?_⟩
  · rw [haudio, hchunks, hpending, hstream]
    exact h.audio
  · rw [haccepted, hchunks]
    exact h.accepted
  · rw [hstream, hends]
    exact h.stream
  · rw [hhealth, healthEnded_append, healthEnded_polled, or_iff_right hnot]
  · rw [hcontrol, hended]
    exact h.ended
  · rw [hcontrol]
    exact h.failed
  · rw [hcontrol, hreported]
    exact h.reported
  · rw [hreported, hended, hchunks, faults_append]
    intro hrep
    obtain ⟨hend, hne, hf⟩ := h.backed hrep
    exact ⟨hend, hne, fun hnil => hf (List.append_eq_nil_iff.mp hnil).1⟩
  · rw [hreported]
    exact fun hrep => hfirst (h.first hrep)
  · rw [hstream, hpending]
    intro hclosed hnone
    rw [h.slot hnone] at hclosed
    cases hclosed
  · rw [hstream, hpending, hchunks]
    intro hclosed hsome hnil
    rw [upToEnd_append_of_ended (h.stream.mp hclosed)]
    exact h.clean hclosed hsome hnil

/-- `get_or_insert` keeps the first fault. -/
theorem latch_fault {err : CaptureError} {l : List CaptureError} (h : p.fault = l.head?) :
    (p.latch err).fault = (l ++ [err]).head? := by
  rw [latch, h]
  cases l <;> rfl

/-- A control message. -/
theorem Turn.control (h : Turn tr log p) (m : OrchestratorControl)
    (hobeys : Obeys tr log (.sent (.control m)))
      (hm : ∀ fault, m ≠ .captureFailed fault) {p' : Pump}
    (hsame : p'.streamOpen = p.streamOpen ∧ p'.healthOpen = p.healthOpen ∧
      p'.accepted = p.accepted ∧ p'.pending = p.pending ∧ p'.fault = p.fault)
    (hended : p'.ended = true)
    (hreported : p'.reported = true ↔ p.reported = true ∨ ∃ fault, m = .captureLost fault)
    (hbacked : (∃ fault, m = .captureLost fault) → chunks log ≠ [] ∧ faults log ≠ []) :
    Turn tr (log ++ [.sent (.control m)]) p' := by
  obtain ⟨hstream, hhealth, haccepted, hpending, hfault⟩ := hsame
  have hchunks : chunks (log ++ [.sent (.control m)]) = chunks log := by
    rw [chunks_append]
    exact List.append_nil _
  have hfaults : faults (log ++ [.sent (.control m)]) = faults log := by
    rw [faults_append]
    exact List.append_nil _
  have haudio : audioSent (log ++ [.sent (.control m)]) = audioSent log := by
    rw [audioSent_append]
    exact List.append_nil _
  have hcontrol : controlSent (log ++ [.sent (.control m)]) = controlSent log ++ [m] := by
    rw [controlSent_append]
    rfl
  have hup : p.streamOpen = false → upToEnd (log ++ [.sent (.control m)]) = upToEnd log :=
    fun hclosed => upToEnd_append_of_ended (h.stream.mp hclosed) _
  refine ⟨History.lawful_concat.mpr ⟨h.lawful, hobeys⟩, ?_, ?_, ?_, ?_, ?_, ?_, ?_, ?_, ?_, ?_, ?_⟩
  · rw [haudio, hchunks, hpending, hstream]
    exact h.audio
  · rw [haccepted, hchunks]
    exact h.accepted
  · rw [hstream, h.stream, streamEnded_append]
    exact (or_iff_left (not_streamEnded_sent [.control m])).symm
  · rw [hhealth, h.health, healthEnded_append]
    exact (or_iff_left (not_healthEnded_sent [.control m])).symm
  · exact fun _ => hended
  · intro fault hmem
    rw [hcontrol, List.mem_append, List.mem_singleton] at hmem
    exact hmem.elim (h.failed fault) fun heq => hm fault heq.symm
  · rw [hreported, hcontrol, h.reported]
    simp only [List.mem_append, List.mem_singleton, exists_or, eq_comm]
  · intro hrep
    rw [hchunks, hfaults]
    refine ⟨hended, ?_⟩
    rcases hreported.mp hrep with hold | hnew
    · exact (h.backed hold).2
    · exact hbacked hnew
  · intro hrep
    rw [hfaults, hfault]
    refine h.first ?_
    by_contra hold
    rw [hreported.mpr (Or.inl (by simpa using hold))] at hrep
    cases hrep
  · rw [hstream, hpending]
    intro hclosed hnone
    rw [hup hclosed, hfaults]
    exact h.fresh hclosed hnone
  · rw [hstream, hpending, hchunks]
    intro hclosed hsome hnil
    rw [hup hclosed]
    exact h.clean hclosed hsome hnil

/-- The feed tells of the end: it is passed on, once. -/
theorem Turn.captureEnded (h : Turn tr log p) (hended : p.ended = false) :
    Turn tr (log ++ [.sent (.control .captureEnded)]) { p with ended := true } := by
  refine h.control .captureEnded ⟨fun hmem => ?_, fun fault hmem => ?_⟩ (by simp)
    ⟨rfl, rfl, rfl, rfl, rfl⟩ rfl (by simp) (by simp)
  · rw [h.ended hmem] at hended
    cases hended
  · rw [(h.backed (h.reported.mpr ⟨fault, hmem⟩)).1] at hended
    cases hended

/-- A poll of the stream. It yields a chunk, or is the last one and may show a first fault. -/
theorem Account.stream_poll (h : Account tr log p) (hopen : p.streamOpen = true)
    (hslot : p.pending = none) (item : Option (Except CaptureError PcmChunk)) {p' : Pump}
    (hsame : p'.healthOpen = p.healthOpen ∧ p'.ended = p.ended ∧ p'.reported = p.reported)
    (hstream : p'.streamOpen = false ↔ Poll.lastOfStream (.stream item) = true)
    (haccepted : p'.accepted = true ↔ p.accepted = true ∨ chunks [.polled (.stream item)] ≠ [])
    (hpending : p'.pending.toList = (chunks [.polled (.stream item)]).map .audio)
    (hfirst : p.fault = (faults log).head? →
      p'.fault = (faults (log ++ [.polled (.stream item)])).head?) :
    Turn tr (log ++ [.polled (.stream item)]) p' := by
  obtain ⟨hhealth, hended, hreported⟩ := hsame
  have hnot : ¬ StreamEnded log := by
    rw [← h.stream, hopen]
    decide
  have haudio : audioSent (log ++ [.polled (.stream item)]) = audioSent log := by
    rw [audioSent_append]
    exact List.append_nil _
  have hcontrol : controlSent (log ++ [.polled (.stream item)]) = controlSent log := by
    rw [controlSent_append]
    exact List.append_nil _
  have hlast : Poll.lastOfStream (.stream item) = true → p'.pending = none := by
    intro hlast
    have hnil : chunks [.polled (.stream item)] = [] := by
      match item, hlast with
      | none, _ => rfl
      | some (.error _), _ => rfl
    rw [hnil] at hpending
    cases hp : p'.pending with
    | none => rfl
    | some input =>
      rw [hp] at hpending
      cases hpending
  refine ⟨History.lawful_concat.mpr ⟨h.lawful, hnot⟩, ?_, ?_, ?_, ?_, ?_, ?_, ?_, ?_, ?_, ?_, ?_⟩
  · have hbefore := h.audio
    rw [hslot, if_neg (by simp)] at hbefore
    rw [if_neg fun hboth => by simp [hlast (hstream.mp hboth.1)] at hboth, haudio, hpending,
      chunks_append, List.map_append, List.append_nil]
    rw [Option.toList_none, List.append_nil, List.append_nil] at hbefore
    rw [hbefore]
  · rw [haccepted, h.accepted, chunks_append]
    simp only [ne_eq, List.append_eq_nil_iff]
    tauto
  · rw [hstream, streamEnded_append, streamEnded_polled, or_iff_right hnot]
  · rw [hhealth, h.health, healthEnded_append, healthEnded_polled]
    simp [Poll.lastOfHealth]
  · rw [hcontrol, hended]
    exact h.ended
  · rw [hcontrol]
    exact h.failed
  · rw [hcontrol, hreported]
    exact h.reported
  · rw [hreported, hended, chunks_append, faults_append]
    intro hrep
    obtain ⟨hend, hne, hf⟩ := h.backed hrep
    exact ⟨hend, fun hnil => hne (List.append_eq_nil_iff.mp hnil).1,
      fun hnil => hf (List.append_eq_nil_iff.mp hnil).1⟩
  · rw [hreported]
    exact fun hrep => hfirst (h.first hrep)
  · intro hclosed _
    rw [upToEnd_append_of_not hnot, upToEnd, if_pos (hstream.mp hclosed)]
  · intro hclosed hsome
    rw [hlast (hstream.mp hclosed)] at hsome
    cases hsome

/-! ### After the select -/

/-- **The announcement**: a fault with audio behind it has been told. -/
theorem Turn.announce (h : Turn tr log p) :
    Turn tr (log ++ (p.announce tr).1.map .sent) (p.announce tr).2 ∧
      ((p.announce tr).2.reported = false → chunks log ≠ [] → faults log = []) ∧
      (p.announce tr).2.pending = p.pending ∧ (p.announce tr).2.streamOpen = p.streamOpen := by
  rw [Pump.announce]
  split_ifs with hdue
  · obtain ⟨haccepted, hunreported⟩ := hdue
    have hfirst := h.first hunreported
    cases hfault : p.fault with
    | none =>
      rw [hfault] at hfirst
      refine ⟨by simpa using h, fun _ _ => List.head?_eq_none_iff.mp hfirst.symm, rfl, rfl⟩
    | some err =>
      rw [hfault] at hfirst
      have hne : faults log ≠ [] := by
        intro hnil
        rw [hnil] at hfirst
        cases hfirst
      have hlost : ∀ fault, OrchestratorControl.captureLost fault ∉ controlSent log := by
        intro fault hmem
        rw [h.reported.mpr ⟨fault, hmem⟩] at hunreported
        cases hunreported
      refine ⟨?_, by simp, rfl, rfl⟩
      exact h.control (.captureLost (Failure.audioLost tr err))
        ⟨hlost, h.accepted.mp haccepted, err, hfirst.symm, rfl⟩ (by simp)
        ⟨rfl, rfl, rfl, rfl, hfault.symm⟩ rfl (by simp) fun _ => ⟨h.accepted.mp haccepted, hne⟩
  · refine ⟨by simpa using h, fun hunreported hne => ?_, rfl, rfl⟩
    exact absurd ⟨h.accepted.mpr hne, hunreported⟩ hdue

/-- The end of audio is queued behind everything. -/
theorem Turn.endQueued (h : Turn tr log p) (hclosed : p.streamOpen = false)
    (hslot : p.pending = none)
    (hnone : p.reported = false → p.fault = none) :
    Turn tr log { p with fault := none, pending := some .endOfAudio } := by
  have haudio := h.audio
  rw [hslot, if_neg (by simp)] at haudio
  refine ⟨h.lawful, ?_, h.accepted, h.stream, h.health, h.ended, h.failed, h.reported,
    h.backed, ?_, ?_,
    ?_⟩
  · rw [Option.toList_none, List.append_nil, List.append_nil] at haudio
    rw [haudio, if_pos ⟨hclosed, rfl⟩]
    rfl
  · intro hrep
    rw [← h.first hrep, hnone hrep]
  · intro _ hcontra
    cases hcontra
  · intro _ _ hnil
    rw [h.fresh hclosed hslot]
    -- nothing was accepted, so nothing was reported, and no fault is latched
    have hrep : p.reported = false := by
      by_contra hrep
      exact (h.backed (by simpa using hrep)).2.1 hnil
    exact List.head?_eq_none_iff.mp ((h.first hrep).symm.trans (hnone hrep))

/-- What holds of the log wherever the pump came to. -/
structure Ordered (tr : String → String) (log : List Event) : Prop where
  lawful : History.Lawful (Obeys tr) log
  /-- Chunks are sent in the order of the stream, and their end behind them. -/
  in_order : audioSent log <+: (chunks log).map .audio ++ [.endOfAudio]
  /-- A loss is told exactly where a fault was seen and a chunk accepted. -/
  lost : (∃ fault, .captureLost fault ∈ controlSent log) ↔ chunks log ≠ [] ∧ faults log ≠ []

/-- The one right ending: a capture that failed with nothing to show, or the end of its audio. -/
def Ending (log : List Event) : Prop :=
  if chunks log = [] ∧ faults (upToEnd log) ≠ [] then
    audioSent log = [] ∧ ∃ fault, .captureFailed fault ∈ controlSent log
  else
    audioSent log = (chunks log).map .audio ++ [.endOfAudio] ∧
      ∀ fault, .captureFailed fault ∉ controlSent log

/-- What the log says of where the pump is. -/
def Settled (tr : String → String) (log : List Event) : Stage → Prop
  | .running p => Account tr log p
  | .returned => Ordered tr log ∧ Ending log
  | .driverGone => Ordered tr log

theorem Account.ordered (h : Account tr log p) : Ordered tr log where
  lawful := h.lawful
  in_order := by
    refine (List.prefix_append _ p.pending.toList).trans ?_
    rw [h.audio]
    split_ifs
    · exact List.prefix_rfl
    · rw [List.append_nil]
      exact List.prefix_append _ _
  lost := by
    rw [← h.reported]
    constructor
    · exact fun hrep => (h.backed hrep).2
    · rintro ⟨hne, hf⟩
      by_contra hrep
      exact hf (h.due (by simpa using hrep) hne)

/-- With an ending told, the end of audio goes behind what was accepted. -/
theorem Turn.queueEnd (h : Turn tr log p)
    (hdue : p.reported = false → chunks log ≠ [] → faults log = []) (hclosed : p.streamOpen = false)
    (hslot : p.pending = none) (hnone : p.reported = false → p.fault = none) :
    Settled tr (log ++ p.queueEnd.1.map .sent) p.queueEnd.2 := by
  rw [Pump.queueEnd]
  cases hended : p.ended with
  | true =>
    have hqueued := h.endQueued hclosed hslot hnone
    rw [hended] at hqueued
    rw [if_pos rfl, List.map_nil, List.append_nil]
    exact ⟨hqueued, fun hcontra => (nomatch hcontra), hdue⟩
  | false =>
    have hsent := h.captureEnded hended
    refine ⟨hsent.endQueued hclosed hslot hnone, fun hcontra => (nomatch hcontra),
      fun hrep hne => ?_⟩
    rw [if_neg (by decide), faults_append, faults_sent, List.append_nil]
    rw [if_neg (by decide), chunks_append, chunks_sent, List.append_nil] at hne
    exact hdue hrep hne

/-- A fault with nothing accepted is the whole story. -/
theorem Turn.captureFailed (h : Turn tr log p) (hclosed : p.streamOpen = false)
    (hslot : p.pending = none) {err : CaptureError} (hfault : p.fault = some err)
    (hnil : chunks log = []) :
    Settled tr (log ++ [.sent (.control (.captureFailed (Failure.capture tr err)))]) .returned := by
  have hrep : p.reported = false := by
    by_contra hrep
    exact (h.backed (by simpa using hrep)).2.1 hnil
  have hfirst := h.first hrep
  rw [hfault] at hfirst
  have haudio := h.audio
  rw [hslot, if_neg (by simp), hnil] at haudio
  have hsent : audioSent log = [] := by simpa using haudio
  have hended := h.stream.mp hclosed
  set failure := Failure.capture tr err with hfailure
  have hchunks : chunks (log ++ [.sent (.control (.captureFailed failure))]) = [] := by
    rw [chunks_append, hnil]
    rfl
  have haudio' : audioSent (log ++ [.sent (.control (.captureFailed failure))]) = [] := by
    rw [audioSent_append, hsent]
    rfl
  refine ⟨⟨?_, ?_, ?_⟩, ?_⟩
  · exact History.lawful_concat.mpr ⟨h.lawful, h.failed, hnil, hsent, hended, err, hfirst.symm, rfl⟩
  · rw [haudio']
    exact List.nil_prefix
  · refine iff_of_false ?_ fun hcontra => hcontra.1 hchunks
    rintro ⟨fault, hmem⟩
    rw [controlSent_append] at hmem
    rcases List.mem_append.mp hmem with hold | hnew
    · rw [h.reported.mpr ⟨fault, hold⟩] at hrep
      cases hrep
    · simp [controlSent] at hnew
  · have hknown : faults (upToEnd (log ++ [.sent (.control (.captureFailed failure))])) ≠ [] := by
      rw [upToEnd_append_of_ended hended, h.fresh hclosed hslot]
      intro hnone
      rw [hnone] at hfirst
      cases hfirst
    rw [Ending, if_pos ⟨hchunks, hknown⟩]
    exact ⟨haudio', failure, by simp [controlSent]⟩

/-- **The conclusion**: nothing while capture goes on; else one ending or the other. -/
theorem Turn.conclude (h : Turn tr log p)
    (hdue : p.reported = false → chunks log ≠ [] → faults log = []) :
    Settled tr (log ++ (p.conclude tr).1.map .sent) (p.conclude tr).2 := by
  rw [Pump.conclude]
  by_cases hover : p.streamOpen = false ∧ p.pending = none
  · obtain ⟨hclosed, hslot⟩ := hover
    rw [if_pos ⟨hclosed, hslot⟩]
    cases hfault : p.fault with
    | none => exact h.queueEnd hdue hclosed hslot fun _ => hfault
    | some err =>
      dsimp only
      by_cases haccepted : p.accepted = true
      · rw [if_pos haccepted]
        refine h.queueEnd hdue hclosed hslot fun hrep => ?_
        rw [h.first hrep, hdue hrep (h.accepted.mp haccepted)]
        rfl
      · rw [if_neg haccepted]
        refine h.captureFailed hclosed hslot hfault ?_
        by_contra hne
        exact haccepted (h.accepted.mpr hne)
  · rw [if_neg hover, List.map_nil, List.append_nil]
    refine ⟨h, fun hnone => ?_, hdue⟩
    by_contra hclosed
    exact hover ⟨by simpa using hclosed, hnone⟩

/-- What follows the select settles the turn. -/
theorem Turn.settle (h : Turn tr log p) :
    Settled tr (log ++ (p.settle tr).1.map .sent) (p.settle tr).2 := by
  obtain ⟨hturn, hdue, -, -⟩ := h.announce
  have hconclude := hturn.conclude (fun hrep hne => ?_)
  · rw [List.append_assoc, ← List.map_append] at hconclude
    exact hconclude
  · rw [chunks_append, chunks_sent, List.append_nil] at hne
    rw [faults_append, faults_sent, List.append_nil]
    exact hdue hrep hne

/-! ### The permits -/

/-- The end of audio is the last thing sent, and with it in the slot nothing else waits. -/
theorem Account.sent_eq (h : Account tr log p) {item : OrchestratorInput}
    (hitem : p.pending = some item) :
    (item = .endOfAudio ∧ p.streamOpen = false ∧ audioSent log = (chunks log).map .audio) ∨
    (item ≠ .endOfAudio ∧ p.streamOpen = true ∧
      audioSent log ++ [item] = (chunks log).map .audio) := by
  have haudio := h.audio
  rw [hitem] at haudio
  cases hopen : p.streamOpen with
  | false =>
    rw [hopen, if_pos ⟨rfl, rfl⟩] at haudio
    obtain ⟨hsent, hlast⟩ := List.append_inj' haudio rfl
    exact Or.inl ⟨(List.cons.inj hlast).1, rfl, hsent⟩
  | true =>
    rw [hopen, if_neg (by simp), List.append_nil] at haudio
    refine Or.inr ⟨?_, rfl, haudio⟩
    rintro rfl
    have hmem : OrchestratorInput.endOfAudio ∈ (chunks log).map OrchestratorInput.audio := by
      rw [← haudio]
      simp
    simp at hmem

/-- The log after a permit. -/
theorem Account.permit_log (h : Account tr log p) {item : OrchestratorInput}
    (hitem : p.pending = some item) :
    History.Lawful (Obeys tr) (log ++ [.polled (.permit true), .sent (.audio item)]) := by
  have hnever : OrchestratorInput.endOfAudio ∉ audioSent log := by
    rcases h.sent_eq hitem with ⟨-, -, hsent⟩ | ⟨-, -, hsent⟩
    · rw [hsent]
      simp
    · intro hmem
      have hmem' : OrchestratorInput.endOfAudio ∈ audioSent log ++ [item] :=
        List.mem_append_left _ hmem
      rw [hsent] at hmem'
      simp at hmem'
  have hpoll := History.lawful_concat.mpr
    ⟨h.lawful, show Obeys tr log (.polled (.permit true)) from trivial⟩
  have hsent : Obeys tr (log ++ [.polled (.permit true)]) (.sent (.audio item)) := by
    show OrchestratorInput.endOfAudio ∉ audioSent (log ++ [.polled (.permit true)])
    rw [audioSent_append]
    simpa [audioSent] using hnever
  have hboth := History.lawful_concat.mpr ⟨hpoll, hsent⟩
  rwa [List.append_assoc] at hboth

/-- The end is handed over: the pump is done. -/
theorem Account.end_sent (h : Account tr log p) (hitem : p.pending = some .endOfAudio) :
    Settled tr (log ++ [.polled (.permit true), .sent (.audio .endOfAudio)]) .returned := by
  rcases h.sent_eq hitem with ⟨-, hclosed, hsent⟩ | ⟨hne, -⟩
  · have hchunks : chunks (log ++ [.polled (.permit true), .sent (.audio .endOfAudio)])
      = chunks log := by
      rw [chunks_append]
      exact List.append_nil _
    have hfaults : faults (log ++ [.polled (.permit true), .sent (.audio .endOfAudio)])
      = faults log := by
      rw [faults_append]
      exact List.append_nil _
    have hcontrol : controlSent (log ++ [.polled (.permit true), .sent (.audio .endOfAudio)])
        = controlSent log := by
      rw [controlSent_append]
      exact List.append_nil _
    have haudio : audioSent (log ++ [.polled (.permit true), .sent (.audio .endOfAudio)])
        = (chunks log).map .audio ++ [.endOfAudio] := by
      rw [audioSent_append, hsent]
      rfl
    refine ⟨⟨h.permit_log hitem, ?_, ?_⟩, ?_⟩
    · rw [haudio, hchunks]
    · rw [hcontrol, hchunks, hfaults]
      exact h.ordered.lost
    · have hknown : ¬ (chunks log = [] ∧ faults (upToEnd log) ≠ []) := by
        rintro ⟨hnil, hf⟩
        exact hf (h.clean hclosed (by rw [hitem]; rfl) hnil)
      rw [Ending, hchunks, upToEnd_append_of_ended (h.stream.mp hclosed), if_neg hknown,
        haudio, hcontrol]
      exact ⟨rfl, h.failed⟩
  · exact absurd rfl hne

/-- A chunk is handed over: the slot is free again. -/
theorem Account.chunk_sent (h : Account tr log p) {item : OrchestratorInput}
    (hitem : p.pending = some item) (hne : item ≠ .endOfAudio) :
    Turn tr (log ++ [.polled (.permit true), .sent (.audio item)]) { p with pending := none } := by
  rcases h.sent_eq hitem with ⟨heq, -⟩ | ⟨-, hopen, hsent⟩
  · exact absurd heq hne
  · have hclosed : ¬ p.streamOpen = false := by
      rw [hopen]
      decide
    have hmore : chunks [.polled (.permit true), .sent (.audio item)] = [] ∧
        faults [.polled (.permit true), .sent (.audio item)] = [] ∧
        controlSent [.polled (.permit true), .sent (.audio item)] = [] ∧
        audioSent [.polled (.permit true), .sent (.audio item)] = [item] := ⟨rfl, rfl, rfl, rfl⟩
    obtain ⟨hchunks, hfaults, hcontrol, haudio⟩ := hmore
    refine ⟨h.permit_log hitem, ?_, ?_, ?_, ?_, ?_, ?_, ?_, ?_, ?_, ?_, ?_⟩
    · rw [audioSent_append, chunks_append, hchunks, haudio, hsent, List.append_nil,
        if_neg (by simp)]
      rfl
    · rw [chunks_append, hchunks, List.append_nil]
      exact h.accepted
    · rw [streamEnded_append]
      refine h.stream.trans (or_iff_left ?_).symm
      simp [StreamEnded, Poll.lastOfStream]
    · rw [healthEnded_append]
      refine h.health.trans (or_iff_left ?_).symm
      simp [HealthEnded, Poll.lastOfHealth]
    · rw [controlSent_append, hcontrol, List.append_nil]
      exact h.ended
    · rw [controlSent_append, hcontrol, List.append_nil]
      exact h.failed
    · rw [controlSent_append, hcontrol, List.append_nil]
      exact h.reported
    · rw [chunks_append, faults_append, hchunks, hfaults, List.append_nil, List.append_nil]
      exact h.backed
    · rw [faults_append, hfaults, List.append_nil]
      exact h.first
    · exact fun hcontra => absurd hcontra hclosed
    · exact fun hcontra => absurd hcontra hclosed

/-- The driver is gone: the pump stops. -/
theorem Account.refused (h : Account tr log p) :
    Settled tr (log ++ [.polled (.permit false)]) .driverGone := by
  have hmore : chunks [.polled (.permit false)] = [] ∧ faults [.polled (.permit false)] = [] ∧
      controlSent [.polled (.permit false)] = [] ∧ audioSent [.polled (.permit false)] = [] :=
    ⟨rfl, rfl, rfl, rfl⟩
  obtain ⟨hchunks, hfaults, hcontrol, haudio⟩ := hmore
  refine ⟨History.lawful_concat.mpr ⟨h.lawful, trivial⟩, ?_, ?_⟩
  · rw [audioSent_append, chunks_append, hchunks, haudio, List.append_nil, List.append_nil]
    exact h.ordered.in_order
  · rw [controlSent_append, chunks_append, faults_append, hchunks, hfaults, hcontrol,
      List.append_nil,
      List.append_nil, List.append_nil]
    exact h.ordered.lost

/-! ## Runs -/

/-- **One turn** of the loop settles. -/
theorem next_settled {poll : Poll} {out : List Sent} {stage : Stage} (h : Account tr log p)
    (hnext : p.next tr poll = some (out, stage)) :
    Settled tr (log ++ .polled poll :: out.map .sent) stage := by
  -- a branch that goes on settles, whatever it sent
  have hgoes : ∀ sent p', Turn tr (log ++ .polled poll :: sent.map .sent) p' →
      p.select poll = some (sent, .running p') →
      Settled tr (log ++ .polled poll :: out.map .sent) stage := by
    intro sent p' hturn hselect
    rw [next, hselect] at hnext
    obtain ⟨rfl, rfl⟩ := Prod.mk.inj (Option.some.inj hnext)
    have hsettled := hturn.settle
    rw [List.append_assoc, List.cons_append, ← List.map_append] at hsettled
    exact hsettled
  cases poll with
  | health state =>
    cases hopen : p.healthOpen with
    | false =>
      rw [next, select.eq_def] at hnext
      simp only [hopen, Bool.false_eq_true, ↓reduceIte] at hnext
      cases hnext
    | true =>
      have hfaults : ∀ state, faults [.polled (.health state)] = [] →
          p.fault = (faults log).head? →
            p.fault = (faults (log ++ [.polled (.health state)])).head? := by
        intro state hnil hfirst
        rw [faults_append, hnil, List.append_nil]
        exact hfirst
      match state with
      | none =>
        refine hgoes [] { p with healthOpen := false } ?_ (by rw [select.eq_def, hopen]; rfl)
        exact h.health_poll hopen none ⟨rfl, rfl, rfl, rfl, rfl⟩ (by simp [Poll.lastOfHealth])
          (hfaults none rfl)
      | some (.faulted err) =>
        refine hgoes [] ({ p with healthOpen := false }.latch err) ?_
          (by rw [select.eq_def, hopen]; rfl)
        refine h.health_poll hopen _ ⟨rfl, rfl, rfl, rfl, rfl⟩
          (by simp [latch, Poll.lastOfHealth]) ?_
        intro hfirst
        rw [faults_append]
        exact latch_fault (p := { p with healthOpen := false }) hfirst
      | some .ended =>
        have hpoll : Turn tr (log ++ [.polled (.health (some .ended))]) p :=
          h.health_poll hopen _ ⟨rfl, rfl, rfl, rfl, rfl⟩ (by simp [hopen, Poll.lastOfHealth])
            (hfaults _ rfl)
        cases hended : p.ended with
        | true => exact hgoes [] p hpoll (by rw [select, hopen, hended]; rfl)
        | false =>
          have hsent := hpoll.captureEnded hended
          rw [List.append_assoc] at hsent
          exact hgoes [.control .captureEnded] _ hsent (by rw [select, hopen, hended]; rfl)
      | some .opening =>
        refine hgoes [] p ?_ (by rw [select.eq_def, hopen]; rfl)
        exact h.health_poll hopen _ ⟨rfl, rfl, rfl, rfl, rfl⟩ (by simp [hopen, Poll.lastOfHealth])
          (hfaults _ rfl)
      | some .capturing =>
        refine hgoes [] p ?_ (by rw [select.eq_def, hopen]; rfl)
        exact h.health_poll hopen _ ⟨rfl, rfl, rfl, rfl, rfl⟩ (by simp [hopen, Poll.lastOfHealth])
          (hfaults _ rfl)
  | permit granted =>
    cases hitem : p.pending with
    | none =>
      rw [next, select, hitem] at hnext
      cases hnext
    | some item =>
      cases granted with
      | false =>
        rw [next, select, hitem] at hnext
        obtain ⟨rfl, rfl⟩ := Prod.mk.inj (Option.some.inj hnext)
        exact h.refused
      | true =>
        by_cases hend : item = .endOfAudio
        · subst hend
          rw [next, select, hitem] at hnext
          obtain ⟨rfl, rfl⟩ := Prod.mk.inj (Option.some.inj hnext)
          exact h.end_sent hitem
        · refine hgoes [.audio item] { p with pending := none } (h.chunk_sent hitem hend) ?_
          rw [select, hitem]
          simp [hend]
  | stream item =>
    by_cases hready : p.streamOpen = true ∧ p.pending.isNone = true
    · obtain ⟨hopen, hslot⟩ := hready
      rw [Option.isNone_iff_eq_none] at hslot
      match item with
      | none =>
        refine hgoes [] { p with streamOpen := false } ?_ (by rw [select, hopen, hslot]; rfl)
        refine h.stream_poll hopen hslot none ⟨rfl, rfl, rfl⟩ (by simp [Poll.lastOfStream])
          (by simp [chunks]) (by simp [chunks, hslot]) fun hfirst => ?_
        rw [faults_append]
        exact hfirst.trans (congrArg List.head? (List.append_nil _).symm)
      | some (.error err) =>
        refine hgoes [] ({ p with streamOpen := false }.latch err) ?_
          (by rw [select, hopen, hslot]; rfl)
        refine h.stream_poll hopen hslot _ ⟨rfl, rfl, rfl⟩ (by simp [latch, Poll.lastOfStream])
          (by simp [latch, chunks]) (by simp [latch, chunks, hslot]) fun hfirst => ?_
        rw [faults_append]
        exact latch_fault (p := { p with streamOpen := false }) hfirst
      | some (.ok chunk) =>
        refine hgoes [] { p with accepted := true, pending := some (.audio chunk) } ?_
          (by rw [select, hopen, hslot]; rfl)
        refine h.stream_poll hopen hslot _ ⟨rfl, rfl, rfl⟩ (by simp [hopen, Poll.lastOfStream])
          (by simp [chunks]) (by simp [chunks]) fun hfirst => ?_
        rw [faults_append]
        exact hfirst.trans (congrArg List.head? (List.append_nil _).symm)
    · rw [next, select.eq_def] at hnext
      simp only [if_neg hready] at hnext
      cases hnext

/-- What holds of every run of the pump. -/
structure Accounts (tr : String → String) (r : Run) : Prop extends Ordered tr r.log where
  lost_once : (controlSent r.log).countP isLost ≤ 1
  failed_once : (controlSent r.log).countP isFailed ≤ 1
  captureEnded_once : (controlSent r.log).count .captureEnded ≤ 1
  endOfAudio_once : (audioSent r.log).count .endOfAudio ≤ 1
  ending : r.stage = .returned → Ending r.log
  /-- Some branch of the select is enabled. -/
  enabled : ∀ p, r.stage = .running p → ∃ poll, (p.next tr poll).isSome

/-- A control message that the log allows once is sent once. -/
theorem countP_controlSent_le_one {kind : OrchestratorControl → Bool}
    (h : History.Lawful (Obeys tr) log)
    (honce : ∀ past m, kind m = true → Obeys tr past (.sent (.control m)) →
      ∀ m' ∈ controlSent past, ¬ kind m' = true) :
    (controlSent log).countP kind ≤ 1 := by
  induction log using List.reverseRecOn with
  | nil => exact Nat.zero_le 1
  | append_singleton log e ih =>
    obtain ⟨hlog, he⟩ := History.lawful_concat.mp h
    rw [controlSent_append, List.countP_append]
    match e, he with
    | .polled poll, _ => exact ih hlog
    | .sent (.audio input), _ => exact ih hlog
    | .sent (.control m), he =>
      show (controlSent log).countP kind + [m].countP kind ≤ 1
      rw [List.countP_singleton]
      split_ifs with hkind
      · rw [List.countP_eq_zero.mpr (honce log m hkind he)]
      · exact ih hlog

theorem Account.enabled (h : Account tr log p) : ∃ poll, (p.next tr poll).isSome := by
  cases hitem : p.pending with
  | none =>
    refine ⟨.stream none, ?_⟩
    simp only [next, select, h.slot hitem, hitem, Option.isNone_none, and_self, ↓reduceIte]
    rfl
  | some item =>
    refine ⟨.permit false, ?_⟩
    simp only [next, select, hitem]
    rfl

theorem settled_init : Settled tr Run.init.log Run.init.stage where
  lawful := History.lawful_nil
  audio := rfl
  accepted := by simp [Run.init, chunks]
  stream := by simp [Run.init, StreamEnded]
  health := by simp [Run.init, HealthEnded]
  ended := by simp [Run.init, controlSent]
  failed := by simp [Run.init, controlSent]
  reported := by simp [Run.init, controlSent]
  backed := by simp
  first := fun _ => rfl
  fresh := fun hcontra => (nomatch hcontra)
  clean := fun hcontra => (nomatch hcontra)
  slot := fun _ => rfl
  due := fun _ _ => rfl

/-- **Every ending of capture is accounted for**, over any interleaving of the stream, the health
feed and the driver. -/
theorem pump_accounts (tr : String → String) {r : Run}
    (h : StepSystem.Reachable (Run.Step tr) Run.init r) : Accounts tr r := by
  have hsettled : Settled tr r.log r.stage := by
    refine StepSystem.reachable_induction (I := fun r => Settled tr r.log r.stage) h settled_init ?_
    rintro s s' hs ⟨p, poll, out, hstage, hnext, hlog⟩
    rw [hstage] at hs
    rw [hlog]
    exact next_settled hs hnext
  have hordered : Ordered tr r.log := by
    cases hstage : r.stage with
    | running p =>
      rw [hstage] at hsettled
      exact Account.ordered hsettled
    | returned =>
      rw [hstage] at hsettled
      exact hsettled.1
    | driverGone =>
      rw [hstage] at hsettled
      exact hsettled
  have hlawful := hordered.lawful
  refine ⟨hordered, ?_, ?_, ?_, ?_, ?_, ?_⟩
  · refine countP_controlSent_le_one hlawful fun past m hm hobeys m' hm' hlost => ?_
    obtain ⟨fault, rfl⟩ := eq_of_isLost hm
    obtain ⟨fault', rfl⟩ := eq_of_isLost hlost
    exact hobeys.1 fault' hm'
  · refine countP_controlSent_le_one hlawful fun past m hm hobeys m' hm' hfailed => ?_
    obtain ⟨fault, rfl⟩ := eq_of_isFailed hm
    obtain ⟨fault', rfl⟩ := eq_of_isFailed hfailed
    exact hobeys.1 fault' hm'
  · refine countP_controlSent_le_one hlawful fun past m hm hobeys m' hm' hended => ?_
    obtain rfl : m = .captureEnded := by simpa using hm
    obtain rfl : m' = .captureEnded := by simpa using hended
    exact hobeys.1 hm'
  · refine (hordered.in_order.sublist.count_le _).trans ?_
    have hnone : ((chunks r.log).map OrchestratorInput.audio).count .endOfAudio = 0 :=
      List.count_eq_zero.mpr (by simp)
    rw [List.count_append, hnone]
    exact Nat.le_refl 1
  · intro hstage
    rw [hstage] at hsettled
    exact hsettled.2
  · intro p hstage
    rw [hstage] at hsettled
    exact Account.enabled hsettled

end

/-! ## A fault ahead of the audio -/

theorem Run.Step.of_next {tr : String → String} {log : List Event} {p : Pump} {poll : Poll}
    {out : List Sent} {stage : Stage} (hnext : p.next tr poll = some (out, stage)) :
    Run.Step tr ⟨log, .running p⟩ ⟨log ++ .polled poll :: out.map .sent, stage⟩ :=
  ⟨p, poll, out, rfl, hnext, rfl⟩

def gone : CaptureError := .backend "gone"

def word : PcmChunk := ⟨[1, 2], {}⟩

/-- Health tells of a fault before the one chunk that was captured is read. -/
def salvage : Run where
  log := [.polled (.health (some (.faulted gone))), .polled (.stream (some (.ok word))),
    .sent (.control (.captureLost (Failure.audioLost id gone))), .polled (.permit true),
    .sent (.audio (.audio word)), .polled (.stream (some (.error gone))), .polled (.permit true),
    .sent (.audio .endOfAudio)]
  stage := .returned

theorem salvage_reachable : StepSystem.Reachable (Run.Step id) Run.init salvage := by
  let known : Pump := { healthOpen := false, fault := some gone }
  let told : Pump := { known with accepted := true, reported := true, ended := true }
  let last : Pump := { told with streamOpen := false, fault := none, pending := some .endOfAudio }
  have hhealth : Run.Step id Run.init ⟨salvage.log.take 1, .running known⟩ :=
    .of_next (show next id {} (.health (some (.faulted gone))) = some ([], _) from rfl)
  have hread : Run.Step id ⟨salvage.log.take 1, .running known⟩
      ⟨salvage.log.take 3, .running { told with pending := some (.audio word) }⟩ :=
    .of_next (show next id known (.stream (some (.ok word))) =
      some ([.control (.captureLost (Failure.audioLost id gone))], _) from rfl)
  have hsent : Run.Step id ⟨salvage.log.take 3,
    .running { told with pending := some (.audio word) }⟩
      ⟨salvage.log.take 5, .running told⟩ :=
    .of_next (show next id { told with pending := some (.audio word) } (.permit true) =
      some ([.audio (.audio word)], _) from rfl)
  have hfault : Run.Step id ⟨salvage.log.take 5, .running told⟩
      ⟨salvage.log.take 6, .running last⟩ :=
    .of_next (show next id told (.stream (some (.error gone))) = some ([], _) from rfl)
  have hend : Run.Step id ⟨salvage.log.take 6, .running last⟩ salvage :=
    .of_next (show next id last (.permit true) = some ([.audio .endOfAudio], _) from rfl)
  exact ((((Relation.ReflTransGen.single hhealth).tail hread).tail hsent).tail hfault).tail hend

theorem salvage_accounts :
    StepSystem.Reachable (Run.Step id) Run.init salvage ∧ Accounts id salvage :=
  ⟨salvage_reachable, pump_accounts id salvage_reachable⟩

/-- A fault that is seen before any chunk is accepted does not fail the capture by itself: audio
that was captured behind it is still sent, and its end. -/
theorem fault_before_audio_salvaged : ¬ ∀ tr r, StepSystem.Reachable (Run.Step tr) Run.init r →
    r.stage = .returned →
    (∃ past e later, r.log = past ++ e :: later ∧ faults [e] ≠ [] ∧ chunks past = []) →
    .endOfAudio ∉ audioSent r.log := by
  intro h
  refine h id salvage salvage_reachable rfl ⟨[], _, _, rfl, ?_, rfl⟩ ?_
  · simp [faults]
  · simp [audioSent, salvage]

end Pump

end Orchestrator

end Myna

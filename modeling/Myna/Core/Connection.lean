import Myna.Core.Ie115
import Myna.Core.Ingress

/-!
# Myna — an IE115 connection (`_handle_ie115` of `myna.core.transport_ws`)

Two tasks share the encoder, the ingress queue and the socket. The reader takes the client's frames,
acknowledges its commits and marks them in the queue; the handler runs the adapter once for each
utterance, up to its boundary. A send puts its frame on the socket and may then suspend, so what a
task has handed over and not yet sent is part of the state.

* **`Speech`** — the encoder, the socket and what is still in hand, with what each task says;
* **`Connection`** — the speech, the ingress queue and where the two tasks are; **`Step`** is what
  one of them does up to its next await;
* **`Talk`** — what any step does to the speech; **`Balanced`** — no utterance is begun before the
  commit of the last one.
-/

namespace Myna

/-- One action on the queue, and what it left in the log. -/
def Ingress.Run.Took (r : Ingress.Run) (a : Ingress.Action) (events : List Ingress.Event)
    (r' : Ingress.Run) : Prop :=
  r.queue.next a = some (events, r'.queue) ∧ r'.log = r.log ++ events

namespace Ie115

/-! ## What is said -/

/-- Who handed a frame over: the reader, or the `emit` of an utterance. -/
inductive Author
  | reader
  | utterance (i : ℕ)
deriving DecidableEq

structure Sent where
  author : Author
  frame : Frame
deriving DecidableEq

/-- A frame in the hands of `send_all`, and whether `json.dumps` can write it. -/
structure Outgoing where
  frame : Frame
  writable : Bool := true
deriving DecidableEq

/-- `send_all` from its next frame on: what goes to the socket, and what is left. An exception of
`json.dumps` ends it, and so does a closed connection. -/
def sendNext (isOpen : Bool) : List Outgoing → List Frame × List Outgoing
  | [] => ([], [])
  | out :: rest => if out.writable && isOpen then ([out.frame], rest) else ([], [])

/-- The encoder, the socket, and what is still to send: of the reader's acknowledgement, of its
refusal, and of an event. `built` is every frame the encoder returned, in that order, and `commits`
how many commits it was asked to acknowledge. -/
structure Speech where
  encoder : Encoder := {}
  utterance : ℕ := 0
  acks : List Outgoing := []
  refusals : List Outgoing := []
  events : List Outgoing := []
  isOpen : Bool := true
  wire : List Sent := []
  built : List Sent := []
  commits : ℕ := 0

namespace Speech

/-- The reader's `send_all` for a commit. -/
def sendAcks (s : Speech) (out : List Outgoing) : Speech :=
  { s with
    wire := s.wire ++ (sendNext s.isOpen out).1.map (Sent.mk .reader)
    acks := (sendNext s.isOpen out).2 }

/-- The reader's `send_all` for a frame it cannot decode. -/
def sendRefusals (s : Speech) (out : List Outgoing) : Speech :=
  { s with
    wire := s.wire ++ (sendNext s.isOpen out).1.map (Sent.mk .reader)
    refusals := (sendNext s.isOpen out).2 }

/-- The `send_all` of an `emit`. -/
def sendEvents (s : Speech) (out : List Outgoing) : Speech :=
  { s with
    wire := s.wire ++ (sendNext s.isOpen out).1.map (Sent.mk (.utterance s.utterance))
    events := (sendNext s.isOpen out).2 }

/-- The frames of an event as `send_all` gets them: the announcements can be written. -/
def outgoing (e : Event) (frames : List Frame) : List Outgoing :=
  frames.map fun frame => ⟨frame, frame.creation.isSome || e.fault != some .unwritable⟩

section

variable (hex : ℕ → String)

/-- `send_all(encoder.commit_frames())`, up to its first await. -/
def commit (s : Speech) : Speech :=
  let (frames, encoder) := s.encoder.commitFrames hex
  { s with
    encoder := encoder
    commits := s.commits + 1
    built := s.built ++ frames.map (Sent.mk .reader) }.sendAcks (frames.map ({ frame := · }))

/-- The event of the reader's `except Exception`. -/
def badClientFrame (exc : String) : Event :=
  { content := .error "invalid_parameter" ("bad client frame: " ++ exc) }

/-- `send_all(encoder.frames(error))` of the reader, up to its first await. -/
def refuse (s : Speech) (exc : String) : Speech :=
  match s.encoder.frames hex (badClientFrame exc) 0 with
  | (none, encoder) => { s with encoder := encoder }
  | (some frames, encoder) =>
    { s with
      encoder := encoder
      built := s.built ++ frames.map (Sent.mk .reader) }.sendRefusals
        (outgoing (badClientFrame exc) frames)

/-- `_Utterance.emit`, up to its first await. -/
def emit (s : Speech) (e : Event) (seconds : ℚ) : Speech :=
  match s.encoder.frames hex e seconds with
  | (none, encoder) => { s with encoder := encoder }
  | (some frames, encoder) =>
    { s with
      encoder := encoder
      built := s.built ++ frames.map (Sent.mk (.utterance s.utterance)) }.sendEvents
        (outgoing e frames)

end

/-- The handler turns to the next utterance. -/
def begin (s : Speech) : Speech :=
  { s with encoder := s.encoder.beginUtterance, utterance := s.utterance + 1 }

end Speech

/-! ## The two tasks -/

/-- Where the reader is. `listening` and `marking` may also wait in the queue. -/
inductive ReaderAt
  | listening
  | acknowledging
  | flushing
  | marking
  | refusing
  | gone
deriving DecidableEq

/-- Where the handler is: in `run_session`, reporting its exception, draining the utterance, failing
it, or past the loop. -/
inductive HandlerAt
  | serving
  | reporting
  | draining
  | failing
  | finished
deriving DecidableEq

/-- What the adapter did in an utterance. -/
inductive Deed
  | emitted (i : ℕ) (e : Event)
  | raised (i : ℕ)
deriving DecidableEq

structure Connection where
  speech : Speech := {}
  ingress : Ingress.Run
  reader : ReaderAt := .listening
  handler : HandlerAt := .serving
  ended : Bool := false
  closed : Bool := false
  terminalSeen : Bool := false
  seconds : ℚ := 0
  deeds : List Deed := []

/-- The reader's task, the handler's, and the session of each utterance. -/
def readerTask : Ingress.TaskId := 0

def handlerTask : Ingress.TaskId := 1

def sessionTask (i : ℕ) : Ingress.TaskId := i + 2

namespace Connection

/-- The event of `_run_utterance` for an exception, with its text. -/
def adapterCrash (exc : String) : Event := { content := .error "adapter_crash" exc }

/-- The event of the loop's own fallback. -/
def noTerminal : Event :=
  { content := .error "internal" "adapter ended without a terminal event" }

def utterance (s : Connection) : ℕ := s.speech.utterance

def aborted (s : Connection) : Bool := s.ingress.queue.aborted

/-- `_Utterance.audio` after `ingress.get()`. -/
def hear (bytesPerSecond : ℕ) (s : Connection) : Ingress.Event → Connection
  | .delivered _ (.chunk data) => { s with seconds := s.seconds + data.length / bytesPerSecond }
  | .delivered _ .boundary => { s with ended := true, closed := false }
  | .ended _ => { s with ended := true, closed := true }
  | _ => s

def hearAll (bytesPerSecond : ℕ) (s : Connection) (events : List Ingress.Event) : Connection :=
  events.foldl (hear bytesPerSecond) s

section

variable (hex : ℕ → String)

/-- `_Utterance.emit`. -/
def emit (s : Connection) (e : Event) : Connection :=
  { s with
    terminalSeen := s.terminalSeen || e.isTerminal
    speech := s.speech.emit hex e s.seconds }

end

/-- A new `_Utterance`, its session served from the queue. -/
def begin (s : Connection) (run : Ingress.Run) : Connection :=
  { s with
    speech := s.speech.begin
    ingress := run
    handler := .serving
    ended := false
    closed := false
    terminalSeen := false
    seconds := 0 }

/-- The task that pulls the audio: the session, or the handler that drains. -/
def puller (s : Connection) : Option Ingress.TaskId :=
  match s.handler with
  | .serving => some (sessionTask s.utterance)
  | .draining => some handlerTask
  | _ => none

/-- A connection after `session.updated`, as the first session starts. -/
def init (bounds : Ingress.Bounds) : Connection :=
  { ingress := ⟨[], ({ bounds := bounds } : Ingress).serve (sessionTask 0)⟩ }

end Connection

open Connection in
/-- What one of the two tasks does up to its next await, or what happens to the connection. A step
that is the adapter's `emit` is labelled with the event. -/
inductive Step (hex : ℕ → String) (bytesPerSecond : ℕ) :
    Option Event → Connection → Connection → Prop
  /-- A frame of audio, resampled. -/
  | audio {s events run} (pcm : Bytes) (hreader : s.reader = .listening)
      (htook : s.ingress.Took (.put readerTask pcm) events run) :
      Step hex bytesPerSecond none s { s with ingress := run }
  /-- The reader's `put` goes on. -/
  | readerResumes {s events run} (htook : s.ingress.Took (.resume readerTask) events run) :
      Step hex bytesPerSecond none s { s with ingress := run }
  | commit {s} (hreader : s.reader = .listening)
      (hfree : s.ingress.queue.busy readerTask = false) :
      Step hex bytesPerSecond none s
        { s with speech := s.speech.commit hex, reader := .acknowledging }
  | acknowledge {s} (hreader : s.reader = .acknowledging) (hhand : s.speech.acks ≠ []) :
      Step hex bytesPerSecond none s { s with speech := s.speech.sendAcks s.speech.acks }
  /-- `put(resampler.flush())`. -/
  | flush {s events run} (pcm : Bytes) (hreader : s.reader = .acknowledging)
      (hhand : s.speech.acks = []) (htook : s.ingress.Took (.put readerTask pcm) events run) :
      Step hex bytesPerSecond none s { s with ingress := run, reader := .flushing }
  | mark {s events run} (hreader : s.reader = .flushing)
      (htook : s.ingress.Took (.putBoundary readerTask) events run) :
      Step hex bytesPerSecond none s { s with ingress := run, reader := .marking }
  | marked {s} (hreader : s.reader = .marking)
      (hfree : s.ingress.queue.busy readerTask = false) :
      Step hex bytesPerSecond none s { s with reader := .listening }
  /-- A frame that cannot be decoded, or a resampler that cannot be flushed. -/
  | refuse {s} (exc : String) (hreader : s.reader = .listening ∨ s.reader = .acknowledging)
      (hhand : s.speech.acks = []) (hfree : s.ingress.queue.busy readerTask = false) :
      Step hex bytesPerSecond none s
        { s with speech := s.speech.refuse hex exc, reader := .refusing }
  | refusing {s} (hreader : s.reader = .refusing) (hhand : s.speech.refusals ≠ []) :
      Step hex bytesPerSecond none s { s with speech := s.speech.sendRefusals s.speech.refusals }
  | refused {s events run} (hreader : s.reader = .refusing) (hhand : s.speech.refusals = [])
      (htook : s.ingress.Took .close events run) :
      Step hex bytesPerSecond none s { s with ingress := run, reader := .gone }
  /-- The client leaves. -/
  | leave {s events events' run run'} (hreader : s.reader = .listening)
      (hfree : s.ingress.queue.busy readerTask = false)
      (habort : s.ingress.Took .abort events run) (hclose : run.Took .close events' run') :
      Step hex bytesPerSecond none s { s with ingress := run', reader := .gone }
  /-- `reader.cancel()` of `_end_connection`, and its close. -/
  | stop {s events run} (hhandler : s.handler = .finished)
      (htook : s.ingress.Took .close events run) :
      Step hex bytesPerSecond none s
        { s with
          speech := { s.speech with acks := [], refusals := [], isOpen := false }
          ingress := run
          reader := .gone }
  | emits {s} (e : Event) (hhandler : s.handler = .serving) (hhand : s.speech.events = [])
      (hfree : s.ingress.queue.busy (sessionTask s.utterance) = false) :
      Step hex bytesPerSecond (some e) s
        { s.emit hex e with deeds := s.deeds ++ [.emitted s.utterance e] }
  | sends {s} (hhand : s.speech.events ≠ []) :
      Step hex bytesPerSecond none s { s with speech := s.speech.sendEvents s.speech.events }
  | pulls {s t events run} (ht : s.puller = some t) (hhand : s.speech.events = [])
      (hended : s.ended = false) (htook : s.ingress.Took (.get t) events run) :
      Step hex bytesPerSecond none s (hearAll bytesPerSecond { s with ingress := run } events)
  | pullResumes {s t events run} (ht : s.puller = some t) (hended : s.ended = false)
      (htook : s.ingress.Took (.resume t) events run) :
      Step hex bytesPerSecond none s (hearAll bytesPerSecond { s with ingress := run } events)
  /-- The adapter stops waiting for audio. -/
  | pullCancelled {s events run} (hhandler : s.handler = .serving)
      (htook : s.ingress.Took (.cancel (sessionTask s.utterance)) events run) :
      Step hex bytesPerSecond none s { s with ingress := run }
  | returns {s} (hhandler : s.handler = .serving) (hhand : s.speech.events = [])
      (hfree : s.ingress.queue.busy (sessionTask s.utterance) = false) :
      Step hex bytesPerSecond none s { s with handler := .draining }
  | raises {s} (exc : String) (hhandler : s.handler = .serving) (hhand : s.speech.events = [])
      (hfree : s.ingress.queue.busy (sessionTask s.utterance) = false) :
      Step hex bytesPerSecond none s
        { s.emit hex (adapterCrash exc) with
          handler := .reporting
          deeds := s.deeds ++ [.raised s.utterance] }
  | reported {s} (hhandler : s.handler = .reporting) (hhand : s.speech.events = []) :
      Step hex bytesPerSecond none s { s with handler := .draining }
  /-- The session ends cancelled. -/
  | cancelled {s events run} (hhandler : s.handler = .serving)
      (htook : s.ingress.Took .abort events run) :
      Step hex bytesPerSecond none s
        { s with
          speech := { s.speech with events := [] }
          ingress := run
          handler := .draining }
  /-- An abort cancels what the session awaits. -/
  | interrupted {s} (hhandler : s.handler = .serving) (haborted : s.aborted = true) :
      Step hex bytesPerSecond none s { s with speech := { s.speech with events := [] } }
  /-- The audio has ended or was given up on. -/
  | finish {s events run} (hhandler : s.handler = .draining)
      (hend : s.ended = true ∧ s.closed = true ∨ s.aborted = true)
      (htook : s.ingress.Took .abort events run) :
      Step hex bytesPerSecond none s { s with ingress := run, handler := .finished }
  | next {s events run} (hhandler : s.handler = .draining) (hended : s.ended = true)
      (hclosed : s.closed = false) (haborted : s.aborted = false)
      (hterminal : s.terminalSeen = true)
      (htook : s.ingress.Took (.serve (sessionTask (s.utterance + 1))) events run) :
      Step hex bytesPerSecond none s (s.begin run)
  | fallback {s} (hhandler : s.handler = .draining) (hended : s.ended = true)
      (hclosed : s.closed = false) (haborted : s.aborted = false)
      (hterminal : s.terminalSeen = false) :
      Step hex bytesPerSecond none s { s.emit hex noTerminal with handler := .failing }
  | failed {s events run} (hhandler : s.handler = .failing) (hhand : s.speech.events = [])
      (htook : s.ingress.Took (.serve (sessionTask (s.utterance + 1))) events run) :
      Step hex bytesPerSecond none s (s.begin run)
  /-- The handler is cancelled. -/
  | shutDown {s events run} (htook : s.ingress.Took .abort events run) :
      Step hex bytesPerSecond none s
        { s with
          speech := { s.speech with events := [] }
          ingress := run
          handler := .finished }
  /-- `abort_sessions`. -/
  | aborts {s events run} (htook : s.ingress.Took .abort events run) :
      Step hex bytesPerSecond none s { s with ingress := run }
  | disconnects {s} :
      Step hex bytesPerSecond none s { s with speech := { s.speech with isOpen := false } }

/-! ## What a step says -/

/-- **What any step does to the speech.** An `emit` of the adapter is labelled with its event; the
`emit` of the handler is an `error`, which names no item. -/
inductive Talk (hex : ℕ → String) : Option Event → Speech → Speech → Prop
  | silent {s} : Talk hex none s s
  | commit {s} (hhand : s.acks = []) : Talk hex none s (s.commit hex)
  | refuse {s} (exc : String) (hhand : s.acks = []) : Talk hex none s (s.refuse hex exc)
  | sendAcks {s} (hhand : s.acks ≠ []) : Talk hex none s (s.sendAcks s.acks)
  | sendRefusals {s} (hhand : s.refusals ≠ []) : Talk hex none s (s.sendRefusals s.refusals)
  | emit {s} (e : Event) (seconds : ℚ) (hhand : s.events = []) :
      Talk hex (some e) s (s.emit hex e seconds)
  | report {s} (e : Event) (seconds : ℚ) (hhand : s.events = []) (hnaming : e.isNaming = false) :
      Talk hex none s (s.emit hex e seconds)
  | sendEvents {s} (hhand : s.events ≠ []) : Talk hex none s (s.sendEvents s.events)
  /-- The commit of the last utterance is acknowledged, and the one in hand is a later one. -/
  | begin {s} (hcommit : s.utterance < s.commits) (hhand : s.events = [])
      (hacks : s.acks ≠ [] → s.utterance + 1 < s.commits) : Talk hex none s s.begin
  | hangUp {s} : Talk hex none s { s with acks := [], refusals := [], isOpen := false }
  | untold {s} : Talk hex none s { s with events := [] }
  | disconnect {s} : Talk hex none s { s with isOpen := false }

/-- The boundaries the handler and its sessions were given. -/
def pulledBoundaries (log : List Ingress.Event) : ℕ :=
  log.countP fun | .delivered t .boundary => t ≠ readerTask | _ => false

/-- A commit is acknowledged before its boundary is asked for. -/
def ReaderAt.unmarked : ReaderAt → ℕ
  | .acknowledging => 1
  | .flushing => 1
  | _ => 0

/-- Whether the utterance has ended at its boundary. -/
def Connection.atBoundary (s : Connection) : Bool := s.ended && !s.closed

/-- **No utterance is begun before the commit of the last one.** Each utterance takes one boundary,
a boundary is asked for once, and the reader asks for it after it acknowledged the commit. -/
structure Balanced (s : Connection) : Prop where
  counted : Ingress.deliveredBoundaries s.ingress.log + s.ingress.queue.boundaries
    ≤ Ingress.askedBoundaries s.ingress.log
  asked : Ingress.askedBoundaries s.ingress.log + s.reader.unmarked ≤ s.speech.commits
  pulled : pulledBoundaries s.ingress.log = s.utterance + s.atBoundary.toNat
  failing : s.handler = .failing → s.atBoundary = true
  acks : s.speech.acks ≠ [] → s.reader = .acknowledging
  events : s.handler = .draining ∨ s.handler = .finished → s.speech.events = []

variable {hex : ℕ → String} {bytesPerSecond : ℕ} {s t : Connection} {act : Option Event}

@[simp] theorem pulledBoundaries_append (l l' : List Ingress.Event) :
    pulledBoundaries (l ++ l') = pulledBoundaries l + pulledBoundaries l' := List.countP_append

theorem pulledBoundaries_le (log : List Ingress.Event) :
    pulledBoundaries log ≤ Ingress.deliveredBoundaries log := by
  refine List.countP_mono_left fun e _ he => ?_
  cases e with
  | delivered t item => cases item <;> simp_all
  | _ => simp_all

theorem pulledBoundaries_quiet {events : List Ingress.Event} (h : Ingress.Quiet events) :
    pulledBoundaries events = 0 := by
  refine List.countP_eq_zero.mpr fun e he => ?_
  have hquiet := h e he
  cases e with
  | delivered t item => exact absurd rfl ((hquiet t).2 item)
  | _ => exact Bool.false_ne_true

theorem hearAll_quiet {events : List Ingress.Event} (h : Ingress.Quiet events) :
    Connection.hearAll bytesPerSecond s events = s := by
  induction events generalizing s with
  | nil => rfl
  | cons e events ih =>
    have hquiet := h e List.mem_cons_self
    have hhear : Connection.hear bytesPerSecond s e = s := by
      cases e with
      | delivered t item => exact absurd rfl ((hquiet t).2 item)
      | ended t => exact absurd rfl (hquiet t).1
      | _ => rfl
    rw [Connection.hearAll, List.foldl_cons, hhear]
    exact ih fun e he => h e (List.mem_cons_of_mem _ he)

/-- **An utterance at its boundary is committed.** -/
theorem Balanced.committed (h : Balanced s) (hend : s.atBoundary = true) :
    s.speech.utterance < s.speech.commits := by
  have hpulled : pulledBoundaries s.ingress.log = s.speech.utterance + 1 := by
    rw [h.pulled, hend]
    rfl
  have hle := pulledBoundaries_le s.ingress.log
  have hcounted := h.counted
  have hasked := h.asked
  omega

/-- The commit in the reader's hands is one the adapter has not been told of. -/
theorem Balanced.ahead (h : Balanced s) (hreader : s.reader.unmarked = 1) :
    s.speech.utterance < s.speech.commits := by
  have hpulled : s.speech.utterance ≤ pulledBoundaries s.ingress.log := by
    rw [h.pulled]
    exact Nat.le_add_right _ _
  have hle := pulledBoundaries_le s.ingress.log
  have hcounted := h.counted
  have hasked := h.asked
  omega

/-- What an action on the queue does to the counts. -/
theorem took_counted {r r' : Ingress.Run} {a : Ingress.Action}
    {events : List Ingress.Event} (htook : r.Took a events r')
    (h : Ingress.deliveredBoundaries r.log + r.queue.boundaries ≤ Ingress.askedBoundaries r.log) :
    Ingress.deliveredBoundaries r'.log + r'.queue.boundaries ≤ Ingress.askedBoundaries r'.log ∧
      Ingress.askedBoundaries r'.log = Ingress.askedBoundaries r.log + a.asks := by
  obtain ⟨hnext, hlog⟩ := htook
  have hle := Ingress.next_boundaries hnext
  have hasked := Ingress.next_asked hnext
  rw [hlog, Ingress.deliveredBoundaries_append, Ingress.askedBoundaries_append, hasked]
  rw [hasked] at hle
  exact ⟨by omega, rfl⟩

/-- An action of the reader, or of nobody, gives the handler no boundary. -/
theorem took_unpulled {r r' : Ingress.Run} {a : Ingress.Action}
    {events : List Ingress.Event} (htook : r.Took a events r')
    (ha : ∀ t, a = .get t ∨ a = .resume t → t = readerTask) :
    pulledBoundaries r'.log = pulledBoundaries r.log := by
  obtain ⟨hnext, hlog⟩ := htook
  have hnone : pulledBoundaries events = 0 := by
    rcases Ingress.next_told hnext with hquiet | ⟨t, htask, htold⟩
    · exact pulledBoundaries_quiet hquiet
    · obtain rfl := ha t htask
      cases htold with
      | delivered item => cases item <;> rfl
      | _ => rfl
  rw [hlog, pulledBoundaries_append, hnone, Nat.add_zero]

/-- What the puller hears: at most one boundary, and it ends the utterance. -/
theorem took_pulled {a : Ingress.Action} {task : Ingress.TaskId} {events : List Ingress.Event}
    {run : Ingress.Run} (htook : s.ingress.Took a events run)
    (ha : a = .get task ∨ a = .resume task) (htask : task ≠ readerTask) (hended : s.ended = false) :
    ∃ seconds ended closed,
      Connection.hearAll bytesPerSecond { s with ingress := run } events
        = { s with ingress := run, seconds := seconds, ended := ended, closed := closed } ∧
      pulledBoundaries run.log = pulledBoundaries s.ingress.log + (ended && !closed).toNat := by
  obtain ⟨hnext, hlog⟩ := htook
  have hquiet : ∀ (c : Connection), Connection.hearAll bytesPerSecond c events = c →
      pulledBoundaries events = 0 → c = { s with ingress := run } → ∃ seconds ended closed,
        Connection.hearAll bytesPerSecond { s with ingress := run } events
          = { s with ingress := run, seconds := seconds, ended := ended, closed := closed } ∧
        pulledBoundaries run.log = pulledBoundaries s.ingress.log + (ended && !closed).toNat := by
    rintro c hsame hnone rfl
    refine ⟨s.seconds, s.ended, s.closed, hsame, ?_⟩
    rw [hlog, pulledBoundaries_append, hnone, hended]
    rfl
  rcases Ingress.next_told hnext with hsilent | ⟨task', htask', htold⟩
  · exact hquiet _ (hearAll_quiet hsilent) (pulledBoundaries_quiet hsilent) rfl
  · have hsame : task' = task := by
      rcases ha with rfl | rfl
      · rcases htask' with heq | heq <;> cases heq
        rfl
      · rcases htask' with heq | heq <;> cases heq
        rfl
    subst hsame
    cases htold with
    | waits => exact hquiet _ rfl rfl rfl
    | refused => exact hquiet _ rfl rfl rfl
    | cancelled => exact hquiet _ rfl rfl rfl
    | ended =>
      refine ⟨s.seconds, true, true, rfl, ?_⟩
      rw [hlog, pulledBoundaries_append]
      rfl
    | delivered item =>
      cases item with
      | chunk data =>
        refine ⟨s.seconds + data.length / bytesPerSecond, s.ended, s.closed, rfl, ?_⟩
        rw [hlog, pulledBoundaries_append, hended]
        rfl
      | boundary =>
        refine ⟨s.seconds, true, false, rfl, ?_⟩
        have hone : pulledBoundaries [.delivered task' .boundary] = 1 := by
          simp [pulledBoundaries, htask]
        rw [hlog, pulledBoundaries_append, hone]
        rfl

/-! What is said does not move the counts but for a commit. -/

section

variable {speech : Speech}

@[simp] theorem commit_utterance : (speech.commit hex).utterance = speech.utterance := rfl

@[simp] theorem commit_commits : (speech.commit hex).commits = speech.commits + 1 := rfl

/-- Refusing a client frame says something and leaves the rest. -/
theorem refuse_frame (exc : String) :
    (speech.refuse hex exc).utterance = speech.utterance ∧
      (speech.refuse hex exc).commits = speech.commits ∧
      (speech.refuse hex exc).acks = speech.acks ∧
      (speech.refuse hex exc).events = speech.events := by
  rw [Speech.refuse]
  split <;> exact ⟨rfl, rfl, rfl, rfl⟩

/-- So does an `emit`. -/
theorem emit_frame (e : Event) (seconds : ℚ) :
    (speech.emit hex e seconds).utterance = speech.utterance ∧
      (speech.emit hex e seconds).commits = speech.commits ∧
      (speech.emit hex e seconds).acks = speech.acks := by
  rw [Speech.emit]
  split <;> exact ⟨rfl, rfl, rfl⟩

end

/-- A step that leaves the utterance where it is keeps the balance, if it asks for no boundary that
has no commit. -/
theorem Balanced.move (h : Balanced s) {n : ℕ}
    (hcounted : Ingress.deliveredBoundaries t.ingress.log + t.ingress.queue.boundaries
      ≤ Ingress.askedBoundaries t.ingress.log)
    (hasked : Ingress.askedBoundaries t.ingress.log = Ingress.askedBoundaries s.ingress.log + n)
    (hpulled : pulledBoundaries t.ingress.log = pulledBoundaries s.ingress.log)
    (hutterance : t.utterance = s.utterance) (hend : t.atBoundary = s.atBoundary)
    (hunmarked : n + t.reader.unmarked + s.speech.commits ≤ t.speech.commits + s.reader.unmarked)
    (hfailing : t.handler = .failing → s.atBoundary = true)
    (hacks : t.speech.acks ≠ [] → t.reader = .acknowledging)
    (hevents : t.handler = .draining ∨ t.handler = .finished → t.speech.events = []) :
    Balanced t where
  counted := hcounted
  asked := by
    have hold := h.asked
    omega
  pulled := by rw [hpulled, h.pulled, hutterance, hend]
  failing := fun hhandler => hend.trans (hfailing hhandler)
  acks := hacks
  events := hevents

/-- The next utterance begins at the boundary of the last one. -/
theorem Balanced.begin (h : Balanced s) {a : Ingress.Action} {events : List Ingress.Event}
    {run : Ingress.Run} (htook : s.ingress.Took a events run) (hasks : a.asks = 0)
    (ha : ∀ t, a = .get t ∨ a = .resume t → t = readerTask) (hend : s.atBoundary = true) :
    Balanced (s.begin run) where
  counted := (took_counted htook h.counted).1
  asked := by
    have hold := h.asked
    have hcount := (took_counted htook h.counted).2
    show Ingress.askedBoundaries run.log + s.reader.unmarked ≤ s.speech.commits
    omega
  pulled := by
    show pulledBoundaries run.log = s.utterance + 1 + 0
    rw [took_unpulled htook ha, h.pulled, hend]
    rfl
  failing := nofun
  acks := h.acks
  events := nofun

/-- Whoever pulls is not the reader. -/
theorem puller_ne {task : Ingress.TaskId} (h : s.puller = some task) : task ≠ readerTask := by
  rw [Connection.puller] at h
  split at h
  · obtain rfl := Option.some.inj h
    exact Nat.succ_ne_zero _
  · obtain rfl := Option.some.inj h
    exact Nat.one_ne_zero
  · cases h

/-- Pulling keeps the balance: a boundary that is taken ends the utterance. -/
theorem Balanced.pull (h : Balanced s) {a : Ingress.Action} {task : Ingress.TaskId}
    {events : List Ingress.Event} {run : Ingress.Run} (htook : s.ingress.Took a events run)
    (ha : a = .get task ∨ a = .resume task) (ht : s.puller = some task) (hended : s.ended = false) :
    Balanced (Connection.hearAll bytesPerSecond { s with ingress := run } events) ∧
      (Connection.hearAll bytesPerSecond { s with ingress := run } events).speech = s.speech := by
  obtain ⟨seconds, ended, closed, hhear, hpulled⟩ :=
    @took_pulled bytesPerSecond _ _ _ _ _ htook ha (puller_ne ht) hended
  have hnone : s.atBoundary = false := by
    rw [Connection.atBoundary, hended]
    rfl
  have hasks : a.asks = 0 := by
    rcases ha with rfl | rfl <;> rfl
  rw [hhear]
  refine ⟨⟨(took_counted htook h.counted).1, ?_, ?_, ?_, h.acks, h.events⟩, rfl⟩
  · have hold := h.asked
    have hcount := (took_counted htook h.counted).2
    show Ingress.askedBoundaries run.log + s.reader.unmarked ≤ s.speech.commits
    omega
  · show pulledBoundaries run.log = s.utterance + (ended && !closed).toNat
    rw [hpulled, h.pulled, hnone]
    rfl
  · -- the handler that fails an utterance does not pull
    intro hhandler
    have hfailing : s.handler = .failing := hhandler
    rw [Connection.puller, hfailing] at ht
    cases ht

/-- **One step** keeps the balance, and talks. -/
theorem Step.balanced (hstep : Step hex bytesPerSecond act s t) (h : Balanced s) :
    Balanced t ∧ Talk hex act s.speech t.speech := by
  cases hstep with
  | audio pcm hreader htook =>
    obtain ⟨hcounted, hasked⟩ := took_counted htook h.counted
    refine ⟨h.move hcounted hasked (took_unpulled htook nofun) rfl rfl ?_ h.failing h.acks
      h.events, .silent⟩
    simp [Ingress.Action.asks, Nat.add_comm]
  | readerResumes htook =>
    obtain ⟨hcounted, hasked⟩ := took_counted htook h.counted
    refine ⟨h.move hcounted hasked (took_unpulled htook ?_) rfl rfl ?_ h.failing h.acks
      h.events, .silent⟩
    · rintro t (heq | heq) <;> cases heq
      rfl
    · simp [Ingress.Action.asks, Nat.add_comm]
  | commit hreader hfree =>
    have hhand : s.speech.acks = [] := by
      by_contra hne
      have heq := h.acks hne
      rw [hreader] at heq
      cases heq
    refine ⟨h.move (n := 0) h.counted rfl rfl rfl rfl ?_ h.failing (fun _ => rfl) h.events,
      .commit hhand⟩
    simp [hreader, ReaderAt.unmarked, Nat.add_comm]
  | acknowledge hreader hhand =>
    refine ⟨h.move (n := 0) h.counted rfl rfl rfl rfl ?_ h.failing (fun _ => hreader) h.events,
      .sendAcks hhand⟩
    simp [Speech.sendAcks, Nat.add_comm]
  | flush pcm hreader hhand htook =>
    obtain ⟨hcounted, hasked⟩ := took_counted htook h.counted
    refine ⟨h.move hcounted hasked (took_unpulled htook nofun) rfl rfl ?_ h.failing
      (fun hne => absurd hhand hne) h.events, .silent⟩
    simp [hreader, ReaderAt.unmarked, Ingress.Action.asks, Nat.add_comm]
  | mark hreader htook =>
    obtain ⟨hcounted, hasked⟩ := took_counted htook h.counted
    refine ⟨h.move hcounted hasked (took_unpulled htook nofun) rfl rfl ?_ h.failing ?_ h.events,
      .silent⟩
    · simp [hreader, ReaderAt.unmarked, Ingress.Action.asks, Nat.add_comm]
    · intro hne
      have heq := h.acks hne
      rw [hreader] at heq
      cases heq
  | marked hreader hfree =>
    refine ⟨h.move (n := 0) h.counted rfl rfl rfl rfl ?_ h.failing ?_ h.events, .silent⟩
    · simp [hreader, ReaderAt.unmarked]
    · intro hne
      have heq := h.acks hne
      rw [hreader] at heq
      cases heq
  | refuse exc hreader hhand hfree =>
    obtain ⟨hutterance, hcommits, hacks, hevents⟩ :=
      @refuse_frame hex s.speech exc
    refine ⟨h.move (n := 0) h.counted rfl rfl hutterance rfl ?_ h.failing ?_
      fun hhandler => hevents.trans (h.events hhandler), .refuse exc hhand⟩
    · simp [hcommits, ReaderAt.unmarked]
    · exact fun hne => absurd (hacks.trans hhand) hne
  | refusing hreader hhand =>
    refine ⟨h.move (n := 0) h.counted rfl rfl rfl rfl ?_ h.failing h.acks h.events,
      .sendRefusals hhand⟩
    simp [Speech.sendRefusals, Nat.add_comm]
  | refused hreader hhand htook =>
    obtain ⟨hcounted, hasked⟩ := took_counted htook h.counted
    refine ⟨h.move hcounted hasked (took_unpulled htook nofun) rfl rfl ?_ h.failing ?_ h.events,
      .silent⟩
    · simp [ReaderAt.unmarked, Ingress.Action.asks]
    · intro hne
      have heq := h.acks hne
      rw [hreader] at heq
      cases heq
  | leave hreader hfree habort hclose =>
    obtain ⟨hmid, hmidAsked⟩ := took_counted habort h.counted
    obtain ⟨hcounted, hasked⟩ := took_counted hclose hmid
    refine ⟨h.move hcounted (n := 0) ?_ ?_ rfl rfl ?_ h.failing ?_ h.events, .silent⟩
    · rw [hasked, hmidAsked]
      rfl
    · rw [took_unpulled hclose nofun, took_unpulled habort nofun]
    · simp [ReaderAt.unmarked]
    · intro hne
      have heq := h.acks hne
      rw [hreader] at heq
      cases heq
  | stop hhandler htook =>
    obtain ⟨hcounted, hasked⟩ := took_counted htook h.counted
    refine ⟨h.move hcounted hasked (took_unpulled htook nofun) rfl rfl ?_ h.failing
      (fun hne => absurd rfl hne) h.events, .hangUp⟩
    simp [ReaderAt.unmarked, Ingress.Action.asks]
  | emits e hhandler hhand hfree =>
    obtain ⟨hutterance, hcommits, hreading⟩ :=
      @emit_frame hex s.speech e s.seconds
    refine ⟨h.move (n := 0) h.counted rfl rfl hutterance rfl ?_ h.failing
      (fun hne => h.acks (hreading ▸ hne)) ?_, .emit e s.seconds hhand⟩
    · simp [Connection.emit, hcommits, Nat.add_comm]
    · intro hdone
      have hold : s.handler = .draining ∨ s.handler = .finished := hdone
      rw [hhandler] at hold
      rcases hold with heq | heq <;> cases heq
  | sends hhand =>
    refine ⟨h.move (n := 0) h.counted rfl rfl rfl rfl ?_ h.failing h.acks ?_, .sendEvents hhand⟩
    · simp [Speech.sendEvents, Nat.add_comm]
    · exact fun hhandler => absurd (h.events hhandler) hhand
  | pulls ht hhand hended htook =>
    obtain ⟨hbalanced, hspeech⟩ :=
      @Balanced.pull bytesPerSecond _ h _ _ _ _ htook (.inl rfl) ht hended
    refine ⟨hbalanced, ?_⟩
    rw [hspeech]
    exact .silent
  | pullResumes ht hended htook =>
    obtain ⟨hbalanced, hspeech⟩ :=
      @Balanced.pull bytesPerSecond _ h _ _ _ _ htook (.inr rfl) ht hended
    refine ⟨hbalanced, ?_⟩
    rw [hspeech]
    exact .silent
  | pullCancelled hhandler htook =>
    obtain ⟨hcounted, hasked⟩ := took_counted htook h.counted
    refine ⟨h.move hcounted hasked (took_unpulled htook nofun) rfl rfl ?_ h.failing h.acks
      h.events, .silent⟩
    simp [Ingress.Action.asks, Nat.add_comm]
  | returns hhandler hhand hfree =>
    refine ⟨h.move (n := 0) h.counted rfl rfl rfl rfl ?_ nofun h.acks fun _ => hhand, .silent⟩
    simp [Nat.add_comm]
  | raises exc hhandler hhand hfree =>
    obtain ⟨hutterance, hcommits, hreading⟩ :=
      @emit_frame hex s.speech (Connection.adapterCrash exc) s.seconds
    refine ⟨h.move (n := 0) h.counted rfl rfl hutterance rfl ?_ nofun
      (fun hne => h.acks (hreading ▸ hne)) nofun,
        .report (Connection.adapterCrash exc) s.seconds hhand rfl⟩
    simp [Connection.emit, hcommits, Nat.add_comm]
  | reported hhandler hhand =>
    refine ⟨h.move (n := 0) h.counted rfl rfl rfl rfl ?_ nofun h.acks fun _ => hhand, .silent⟩
    simp [Nat.add_comm]
  | cancelled hhandler htook =>
    obtain ⟨hcounted, hasked⟩ := took_counted htook h.counted
    refine ⟨h.move hcounted hasked (took_unpulled htook nofun) rfl rfl ?_ nofun h.acks
      fun _ => rfl, .untold⟩
    simp [Ingress.Action.asks, Nat.add_comm]
  | interrupted hhandler haborted =>
    refine ⟨h.move (n := 0) h.counted rfl rfl rfl rfl ?_ h.failing h.acks fun _ => rfl, .untold⟩
    simp [Nat.add_comm]
  | finish hhandler hend htook =>
    obtain ⟨hcounted, hasked⟩ := took_counted htook h.counted
    refine ⟨h.move hcounted hasked (took_unpulled htook nofun) rfl rfl ?_ nofun h.acks
      fun _ => h.events (.inl hhandler), .silent⟩
    simp [Ingress.Action.asks, Nat.add_comm]
  | next hhandler hended hclosed haborted hterminal htook =>
    have hend : s.atBoundary = true := by
      rw [Connection.atBoundary, hended, hclosed]
      rfl
    have hnext := h.begin htook rfl nofun hend
    exact ⟨hnext, .begin (h.committed hend) (h.events (.inl hhandler)) fun hne =>
      hnext.ahead (by rw [hnext.acks hne]; rfl)⟩
  | fallback hhandler hended hclosed haborted hterminal =>
    have hend : s.atBoundary = true := by
      rw [Connection.atBoundary, hended, hclosed]
      rfl
    obtain ⟨hutterance, hcommits, hreading⟩ :=
      @emit_frame hex s.speech Connection.noTerminal s.seconds
    refine ⟨h.move (n := 0) h.counted rfl rfl hutterance rfl ?_ (fun _ => hend)
      (fun hne => h.acks (hreading ▸ hne)) nofun,
      .report Connection.noTerminal s.seconds (h.events (.inl hhandler)) rfl⟩
    simp [Connection.emit, hcommits, Nat.add_comm]
  | failed hhandler hhand htook =>
    have hend := h.failing hhandler
    have hnext := h.begin htook rfl nofun hend
    exact ⟨hnext, .begin (h.committed hend) hhand fun hne =>
      hnext.ahead (by rw [hnext.acks hne]; rfl)⟩
  | shutDown htook =>
    obtain ⟨hcounted, hasked⟩ := took_counted htook h.counted
    refine ⟨h.move hcounted hasked (took_unpulled htook nofun) rfl rfl ?_ nofun h.acks
      fun _ => rfl, .untold⟩
    simp [Ingress.Action.asks, Nat.add_comm]
  | aborts htook =>
    obtain ⟨hcounted, hasked⟩ := took_counted htook h.counted
    refine ⟨h.move hcounted hasked (took_unpulled htook nofun) rfl rfl ?_ h.failing h.acks
      h.events, .silent⟩
    simp [Ingress.Action.asks, Nat.add_comm]
  | disconnects =>
    refine ⟨h.move (n := 0) h.counted rfl rfl rfl rfl ?_ h.failing h.acks h.events,
      .disconnect⟩
    simp [Nat.add_comm]

end Ie115

end Myna

import Myna.Client.Capture
import Myna.Client.Continuity
import Myna.Core.Audio

/-!
# Myna — from the data thread to the producer (`myna_audio::native`)

PipeWire's data thread hands each buffer over through a byte ring, and says through three atomics
what it lost, or may have lost. The loop thread moves what is in the ring into the `Producer`, ends
the capture when it is told to, and reads once more when the data thread is gone. A `Session` is the
two threads with what they share; each of its steps does one thing to the ring or to an atomic.

* **`Mix`** — a buffer in the negotiated format;
* **`Session.callback`** — the `process` callback goes on;
* **`Session.drain`** — a run of the `Drain` goes on;
* **`Session.step`** — either of these, or the loop thread does something else.
-/

namespace Myna

namespace Native

/-! ## Mixing -/

/-- Which selected channel indices feed each output channel. -/
def channelBuckets (selected : List ℕ) (outChannels : ℕ) : List (List ℕ) :=
  (List.range outChannels).map fun out =>
    (selected.zipIdx.filter fun (_, n) => n % outChannels = out).map Prod.fst

/-- How the data thread turns a stream buffer into the negotiated format. -/
inductive Mix
  | passthrough (frameBytes : ℕ)
  | select (inChannels : ℕ) (buckets : List (List ℕ))

/-- The sample of one output channel: the average of its bucket, silence where that is empty. -/
def mixed (frame : Bytes) (inChannels : ℕ) (bucket : List ℕ) : ℤ :=
  let valid := bucket.filter (· < inChannels)
  let sum := (valid.map fun ch => int16 (frame.getD (2 * ch) 0) (frame.getD (2 * ch + 1) 0)).sum
  if valid.length > 0 then sum.tdiv valid.length else 0

def downmixS16 (data : Bytes) (inChannels : ℕ) (buckets : List (List ℕ)) : Bytes :=
  (List.range (data.length / (inChannels * 2))).flatMap fun n =>
    let frame := (data.drop (n * (inChannels * 2))).take (inChannels * 2)
    buckets.flatMap fun bucket => int16Bytes (mixed frame inChannels bucket)

namespace Mix

def new (selection : Option (List ℕ)) (inChannels outChannels : ℕ) : Mix :=
  match selection with
  | some selected =>
    if selected ≠ [] ∧ 0 < outChannels then
      .select (max inChannels 1) (channelBuckets selected outChannels)
    else .passthrough (max inChannels 1 * 2)
  | none => .passthrough (max inChannels 1 * 2)

/-- Whole stream frames in `samples`. -/
def frames (mix : Mix) (samples : Bytes) : ℕ :=
  samples.length / match mix with
    | .passthrough frameBytes => frameBytes
    | .select inChannels _ => inChannels * 2

/-- The bytes asked of the ring for a buffer. -/
def room (mix : Mix) (samples : Bytes) : ℕ :=
  match mix with
  | .passthrough _ => samples.length
  | .select _ buckets => mix.frames samples * buckets.length * 2

/-- A whole buffer, passed through or downmixed. -/
def whole (mix : Mix) (samples : Bytes) : Bytes :=
  match mix with
  | .passthrough _ => samples
  | .select inChannels buckets => downmixS16 samples inChannels buckets

/-- A downmixed buffer fills the chunk that was asked for. -/
theorem length_whole (mix : Mix) (samples : Bytes) :
    (mix.whole samples).length = mix.room samples := by
  cases mix with
  | passthrough frameBytes => rfl
  | select inChannels buckets =>
    have hframe : ∀ frame : Bytes, (buckets.flatMap fun bucket =>
        int16Bytes (mixed frame inChannels bucket)).length = buckets.length * 2 := by
      intro frame
      induction buckets with
      | nil => rfl
      | cons bucket buckets ih =>
        rw [List.flatMap_cons, List.length_append, ih, List.length_cons]
        show 2 + buckets.length * 2 = (buckets.length + 1) * 2
        omega
    show (downmixS16 samples inChannels buckets).length
      = samples.length / (inChannels * 2) * buckets.length * 2
    unfold downmixS16
    dsimp only
    generalize samples.length / (inChannels * 2) = frames
    induction frames with
    | zero => simp
    | succ frames ih =>
      rw [List.range_succ, List.flatMap_append, List.length_append, ih, List.flatMap_singleton,
        hframe]
      ring

end Mix

/-! ## Losses -/

/-- Audio the data thread could not hand over, the duration in seconds. -/
inductive Loss
  | missed (lost : ℚ)
  | overflow
deriving DecidableEq

/-- `REALTIME_BUFFER`, in seconds. -/
def REALTIME_BUFFER : ℕ := 2

def lostAudioMessage (lost : ℚ) : String :=
  s!"{⌊lost * 1000⌋₊} ms of audio was lost: the capture thread could not keep up, the system may "
    ++ "be overloaded"

def overflowMessage : String :=
  s!"the capture buffer overflowed: audio waited more than {REALTIME_BUFFER} s to be read, the "
    ++ "system may be overloaded"

def Loss.intoError : Loss → CaptureError
  | .missed lost => .backend (lostAudioMessage lost)
  | .overflow => .backend overflowMessage

/-- The only state `process` shares with the loop thread. A loss is a code: zero for none, all ones
for an overflow, else the microseconds missed. -/
structure Shared where
  epoch : ℕ := 0
  loss : ℕ := 0
  unconfirmed : ℕ := 0

namespace Shared

def OVERFLOW : ℕ := 2 ^ 64 - 1

end Shared

/-- The code of a duration, never that of nothing nor of an overflow. -/
def micros (lost : ℚ) : ℕ := min (max ⌊lost * 1000000⌋₊ 1) (Shared.OVERFLOW - 1)

def Loss.code : Loss → ℕ
  | .overflow => Shared.OVERFLOW
  | .missed lost => micros lost

/-- What a code says; one of a deficit never says an overflow. -/
def Loss.ofCode (code : ℕ) : Option Loss :=
  if code = 0 then none
  else if code = Shared.OVERFLOW then some .overflow
  else some (.missed (code / 1000000))

/-- A loss as the loop thread reads it: to the microsecond. -/
def Loss.rounded : Loss → Loss
  | .overflow => .overflow
  | .missed lost => .missed (micros lost / 1000000)

def deficitCode (deficit : Option ℚ) : ℕ := deficit.elim 0 micros

/-! ## Why the capture ends -/

inductive Ending
  | clean
  | fault (err : CaptureError)
deriving DecidableEq

def Ending.intoFault : Ending → Option CaptureError
  | .clean => none
  | .fault err => some err

/-- How capture ended, given the audio the data thread lost before it was quiesced. -/
def finalEnding (why : Option Ending) (loss : Option Loss) : Option Ending :=
  match why, loss with
  | some (.fault err), _ => some (.fault err)
  | _, some loss => some (.fault loss.intoError)
  | why, none => why

inductive Phase
  | discovering
  | linking
  | capturing
deriving DecidableEq

/-- `SILENCE_TIMEOUT`, in seconds. -/
def SILENCE_TIMEOUT : ℕ := 3

structure Supervisor where
  phase : Phase := .discovering
  wired : Bool := false
  deadline : Option ℚ
  target : Option String

namespace Supervisor

def new (now : ℚ) (target : Option String) : Supervisor where
  deadline := some (now + SILENCE_TIMEOUT)
  target := target

def linking (s : Supervisor) (now : ℚ) : Supervisor :=
  { s with phase := .linking, deadline := some (now + SILENCE_TIMEOUT) }

/-- A non-empty buffer arrived. -/
def delivered (s : Supervisor) (now : ℚ) : Supervisor :=
  { s with phase := .capturing, deadline := some (now + SILENCE_TIMEOUT) }

def noAnswerMessage : String :=
  s!"PipeWire did not answer within {SILENCE_TIMEOUT} s - is the audio service running?"

def noFlowMessage (target : Option String) : String :=
  match target with
  | some t => s!"no audio is flowing from '{t}' - the device may be stuck, unplugged, or the graph "
      ++ "failed to link"
  | none => "no audio is flowing from the capture source - the device may be stuck, unplugged, or "
      ++ "the graph failed to link"

def tick (s : Supervisor) (now : ℚ) (stopped : Bool) : Option Ending :=
  if stopped then
    if s.wired ∨ s.phase = .capturing then some .clean
    else some (.fault (.deviceUnavailable "capture stopped before an audio source was wired"))
  else
    match s.deadline with
    | some deadline =>
      if deadline ≤ now then
        some (.fault (match s.phase with
          | .discovering => .serviceUnresponsive noAnswerMessage
          | _ => .noFlow (noFlowMessage s.target)))
      else none
    | none => none

end Supervisor

inductive StreamState
  | error (message : String)
  | unconnected
  | connecting
  | paused
  | streaming
deriving DecidableEq

def streamError (target : Option String) (message : String) : CaptureError :=
  .deviceUnavailable (match target with
    | some t => s!"PipeWire stream error on '{t}': {message}"
    | none => s!"PipeWire stream error: {message}")

/-! ## The two threads -/

/-- The stream clock that a callback found: ticks and rate; none where the stream has no time. -/
abbrev Clock := Option (ℕ × (ℕ × ℕ))

/-- What the data thread does next. -/
inductive DataPc
  | idle
  | delivering (buffers : List Bytes) (frames : ℕ) (time : Clock)
  | latching (loss : Loss) (buffers : List Bytes) (frames : ℕ) (time : Clock)
  | holding (deficit : Option ℚ)
  | quiesced

/-- Why the loop thread runs the `Drain`: its poll timer, or the end. -/
inductive Why
  | poll (now : ℚ) (stopped : Bool)
  | last

/-- What the loop thread does next: it reads the loss, counts what the ring holds, takes that out,
and pushes it. -/
inductive LoopPc
  | idle
  | loss (why : Why)
  | slots (why : Why) (loss : Option Loss)
  | read (why : Why) (loss : Option Loss) (available : ℕ)
  | push (why : Why) (loss : Option Loss) (bytes : Bytes)

/-- What one run of the `Drain` found. -/
structure Drained where
  delivered : Bool
  abandoned : Bool
  loss : Option Loss

/-- What the data thread has done: handed a buffer over, for which the ring had room or not, or
given an account, which found a loss or not. -/
inductive Entry
  | deliver (samples : Bytes) (fits : Bool)
  | account (lost : Option ℚ)

def Entry.loss : Entry → Option Loss
  | .deliver _ fits => if fits then none else some .overflow
  | .account lost => lost.map .missed

/-- What it handed over, where nothing was lost. -/
def Entry.bytes (mix : Mix) : Entry → Bytes
  | .deliver samples _ => mix.whole samples
  | .account _ => []

/-- `DataPath` but for its ring. -/
structure DataPath where
  mix : Mix
  continuity : Continuity
  epoch : ℕ := 0
  lost : Bool := false

/-- The capture from the stream's first callback on: what the threads share, each thread, what was
pushed into the `Producer`, and how it ended. `log` is all that the data thread has done. -/
structure Session where
  capacity : ℕ
  ring : Bytes := []
  shared : Shared := {}
  path : DataPath
  data : DataPc := .idle
  loop : LoopPc := .idle
  supervisor : Supervisor
  ending : Option Ending := none
  pushed : Bytes := []
  drained : Option Drained := none
  outcome : Option (Option CaptureError) := none
  log : List Entry := []

/-- What happens next. `alive` is the answer of the `Producer`, where it is asked. -/
inductive Event
  | process (buffers : List Bytes) (time : Clock)
  | callback
  | poll (now : ℚ) (stopped : Bool)
  | drain (alive : Bool)
  | stateChanged (state : StreamState)
  | quiesce

namespace Session

/-- `lose`, up to the store of the latch. -/
def lose (s : Session) (loss : Loss) (buffers : List Bytes) (frames : ℕ) (time : Clock) : Session :=
  if s.path.lost then { s with data := .delivering buffers frames time }
  else
    { s with
      path := { s.path with lost := true }
      data := .latching loss buffers frames time }

/-- `DataPath::deliver`. -/
def deliver (s : Session) (samples : Bytes) (buffers : List Bytes) (frames : ℕ) (time : Clock) :
    Session :=
  let fits := decide (s.ring.length + s.path.mix.room samples ≤ s.capacity)
  let frames := frames + s.path.mix.frames samples
  let logged := { s with log := s.log ++ [Entry.deliver samples fits] }
  if s.path.lost then { logged with data := .delivering buffers frames time }
  else if fits then
    { logged with
      -- a chunk takes as many bytes as were asked for
      ring := s.ring ++ (s.path.mix.whole samples).take (s.path.mix.room samples)
      data := .delivering buffers frames time }
  else logged.lose .overflow buffers frames time

/-- `DataPath::account`, up to what it stores. -/
def account (s : Session) (ticks : ℕ) (graphRate : ℕ × ℕ) (frames : ℕ) : Session :=
  let path :=
    if s.shared.epoch ≠ s.path.epoch then
      { s.path with epoch := s.shared.epoch, continuity := s.path.continuity.restart }
    else s.path
  let (lost, continuity) := path.continuity.delivered { ticks, graphRate, frames }
  let s := { s with path := { path with continuity }, log := s.log ++ [Entry.account lost] }
  match lost with
  | some lost => s.lose (.missed lost) [] 0 none
  | none => { s with data := .holding continuity.outstanding }

/-- `realtime_process` goes on. -/
def callback (s : Session) : Option Session :=
  match s.data with
  | .idle | .quiesced => none
  | .delivering (samples :: buffers) frames time => some (s.deliver samples buffers frames time)
  | .delivering [] frames time =>
    match time with
    | some (ticks, graphRate) =>
      if frames = 0 then some { s with data := .idle }
      else some (s.account ticks graphRate frames)
    | none => some { s with data := .idle }
  | .latching loss buffers frames time =>
    some { s with
      shared := { s.shared with loss := loss.code }
      data := .delivering buffers frames time }
  | .holding deficit =>
    some { s with
      shared := { s.shared with unconfirmed := deficitCode deficit }
      data := .idle }

/-- The first ending wins. -/
def endWith (s : Session) (why : Ending) : Session :=
  { s with ending := s.ending.or (some why) }

/-- What follows a run of the `Drain`: the poll timer's, or the end of the capture. -/
def finish (s : Session) (why : Why) (drained : Drained) : Session :=
  let s := { s with loop := .idle, drained := some drained }
  match why with
  | .poll now stopped =>
    let s := if drained.delivered then { s with supervisor := s.supervisor.delivered now } else s
    let s := if drained.abandoned then s.endWith .clean else s
    let s := match drained.loss with
      | some loss => s.endWith (.fault loss.intoError)
      | none => s
    match s.supervisor.tick now stopped with
    | some why => s.endWith why
    | none => s
  | .last =>
    let loss := drained.loss.orElse fun _ => Loss.ofCode s.shared.unconfirmed
    { s with outcome := some ((finalEnding s.ending loss).bind Ending.intoFault) }

/-- `Drain::run` goes on. -/
def drain (s : Session) (alive : Bool) : Option Session :=
  match s.loop with
  | .idle => none
  | .loss why => some { s with loop := .slots why (Loss.ofCode s.shared.loss) }
  | .slots why loss => some { s with loop := .read why loss s.ring.length }
  | .read why loss available =>
    if 0 < available then
      some { s with
        loop := .push why loss (s.ring.take available)
        ring := s.ring.drop available }
    else some (s.finish why { delivered := false, abandoned := false, loss })
  | .push why loss bytes =>
    some ({ s with pushed := s.pushed ++ bytes }.finish why
      { delivered := true, abandoned := !alive, loss })

def step (s : Session) : Event → Option Session
  | .process buffers time =>
    match s.data with
    | .idle => some { s with data := .delivering buffers 0 time }
    | _ => none
  | .callback => s.callback
  | .poll now stopped =>
    match s.loop, s.data with
    | .idle, .quiesced => none
    | .idle, _ => some { s with loop := .loss (.poll now stopped) }
    | _, _ => none
  | .drain alive => s.drain alive
  | .stateChanged state =>
    match s.loop, s.data with
    | .idle, .quiesced => none
    | .idle, _ =>
      let s := { s with shared := { s.shared with epoch := (s.shared.epoch + 1) % 2 ^ 32 } }
      some (match state with
        | .paused | .streaming => { s with supervisor := { s.supervisor with wired := true } }
        | .error message => s.endWith (.fault (streamError s.supervisor.target message))
        | _ => s)
    | _, _ => none
  | .quiesce =>
    match s.loop, s.data with
    | .idle, .idle => some { s with data := .quiesced, loop := .loss .last }
    | _, _ => none

def run (s : Session) (events : List Event) : Option Session := events.foldlM step s

end Session

/-- The stream as it is connected. -/
def connected (capacity rate : ℕ) (mix : Mix) (target : Option String) (now : ℚ) : Session where
  capacity := capacity
  path := { mix, continuity := .new rate }
  supervisor := (Supervisor.new now target).linking now

/-! ## What the capture owes to its consumer -/

/-- The first loss the data thread met. -/
def firstLoss (log : List Entry) : Option Loss := log.findSome? Entry.loss

/-- The whole buffers that were handed over before the first loss. -/
def kept (mix : Mix) (log : List Entry) : Bytes :=
  (log.takeWhile fun entry => entry.loss.isNone).flatMap (Entry.bytes mix)

/-- Captured audio is kept or the capture faults. -/
structure Keeps (s : Session) : Prop where
  /-- Nothing else is pushed, and nothing after the first loss. -/
  pushed : s.pushed <+: kept s.path.mix s.log
  /-- A run that reports a loss reports the first, with all moved that was delivered before. -/
  drained : ∀ drained loss, s.drained = some drained → drained.loss = some loss →
    s.pushed = kept s.path.mix s.log ∧ (firstLoss s.log).map Loss.rounded = some loss
  /-- A loss that ends the capture is the first. -/
  reported : ∀ message, s.ending = some (.fault (.backend message)) →
    ∃ loss, firstLoss s.log = some loss ∧ loss.rounded.intoError = .backend message
  ended : ∀ outcome, s.outcome = some outcome → s.pushed = kept s.path.mix s.log ∧
    (∀ loss, firstLoss s.log = some loss → outcome = match s.ending with
      | some (.fault err) => some err
      | _ => some loss.rounded.intoError)
  clean : s.outcome = some none → firstLoss s.log = none ∧
    s.path.continuity.outstanding = none

end Native

end Myna

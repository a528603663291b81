import Myna.Streaming.Dedupe
import Myna.Streaming.Strategies
import Mathlib.Data.Rat.Cast.Defs

/-!
# Myna — the streaming emission loop (`streaming/loop.py`)

`_run` as a state machine. The local variables of the coroutine are the fields of `LoopState`, its
control points the constructors of `Pc`, and `step` runs it from one control point to the next, at
most one decode a step. What it does to the world is recorded where it does it: `Display.events`
are the events emitted, `Display.decodes` the decoder calls, `Transcript.commits` the calls of
`emit_committed` and `vadLog` what the voice detector judged and asked for.

* **`cutRegion`**, **`forceBoundary`**, **`agreementTick`**, **`resolveTail`** — the four paths on
  which text is committed;
* **`silenceTick`** — the display-only tick of a chunked strategy;
* **`step`**, **`run`** — the machine and its runs.

The decoder, the clock and the Unicode database are parameters (`Env`). The decoder is given the
number of calls before this one, so that `Env` also covers decoders that change their mind.
-/

namespace Myna

/-- Do not bother decoding an utterance shorter than this. -/
def MIN_DECODE_S : Seconds := 3 / 10

/-- `PARTIAL_BUDGET`: the share of audio time partial ticks may spend decoding. -/
def PARTIAL_BUDGET : ℚ := 1 / 2

inductive Disposition where
  | committed
  | unstable
deriving DecidableEq

/-- The events of the 007 contract the loop emits. -/
inductive Event where
  | final (text : Text) (disposition : Disposition) (segmentIndex : Option ℕ)
  | progress
deriving DecidableEq

inductive DecodeKind where
  | commit
  | tick
  | preview
deriving DecidableEq

/-- One call of `timed_decode`; a chunked tick (`kind="partial"` in the source) is a `preview`. -/
structure DecodeCall where
  kind : DecodeKind
  samples : List ℚ
  offset : Seconds

/-- What the voice detector did: it judged a frame, or a cut was asked for and taken or refused. -/
inductive VadEvent where
  | frame (activity : Activity)
  | cut (cut : Cut) (taken : Bool)
deriving DecidableEq

/-- The settings of the partial ticks of a chunked strategy. -/
structure PartialSettings where
  cadence : Option Seconds := none
  tail : Option Seconds := none
  budget : Option ℚ := none

/-- The arguments of `run_streaming_loop` besides the audio, the decoder and the strategy. -/
structure Config where
  cadence : Seconds := 1
  window : WindowPair
  partials : PartialSettings := {}
  onCommit : Bool := false
  silenceCutOverlap : Bool := true
  minUtterance : Seconds := MIN_DECODE_S

/-- What a session runs in. `wall n` is the measured cost of the `n`-th partial tick. -/
structure Env (K : Type*) where
  config : Config
  decode : ℕ → List ℚ → Seconds → Hypothesis
  wall : ℕ → ℚ
  unicode : Unicode
  numerics : Numerics K

/-- The control points of `_run`. -/
inductive Pc where
  | chunk
  | fill
  | observe
  | boundary
  | tick
  | tail
  | done
  | raised
deriving DecidableEq

/-- What the loop has committed: the texts, the dedupe history of their words, the text watermark
and the words behind each text. -/
structure Transcript where
  committed : List Text := []
  committedThrough : Seconds := 0
  committedWordTexts : List Text := []
  segmentIndex : ℕ := 0
  commits : List (Text × List Word) := []

/-- What the loop has shown, and the bookkeeping of its display. -/
structure Display where
  events : List Event := []
  decodes : List DecodeCall := []
  ticks : ℕ := 0
  lastUnstable : Text := []
  lastDecodeEnd : Seconds := 0
  lastPartialWall : ℚ := 0

structure LoopState (K : Type*) where
  pc : Pc
  audio : List Bytes
  pending : Bytes
  cutTaken : Bool
  window : RollingWindow
  strategy : Strategy K
  transcript : Transcript
  lastHyp : Option Hypothesis
  vadLog : List VadEvent
  result : Option Text
  display : Display

variable {K : Type*}

/-- The decoder answers the same region at the same offset the same way at every call. -/
def Env.PureDecoder (env : Env K) : Prop :=
  ∀ m n samples offset, env.decode m samples offset = env.decode n samples offset

/-- The state in which `_run` starts to read `audio`. -/
def LoopState.init (env : Env K) (strategy : Strategy K) (audio : List Bytes) : LoopState K where
  pc := .chunk
  audio := audio
  pending := []
  cutTaken := false
  window := .new env.config.window
  strategy := strategy
  transcript := {}
  lastHyp := none
  vadLog := []
  result := none
  display := {}

namespace Loop

/-! ## Decoding and emitting -/

/-- `timed_decode`: the decoder's answer, and the state with the call on record. -/
def timedDecode (env : Env K) (s : LoopState K) (kind : DecodeKind) (samples : List ℚ)
    (offset : Seconds) : Hypothesis × LoopState K :=
  (env.decode s.display.decodes.length samples offset,
    { s with display := { s.display with
        decodes := s.display.decodes ++ [⟨kind, samples, offset⟩] } })

def emit (s : LoopState K) (event : Event) : LoopState K :=
  { s with display := { s.display with events := s.display.events ++ [event] } }

/-- `emit_committed`: to the wire, or to `on_commit` where presentation is deferred. -/
def emitCommitted (env : Env K) (s : LoopState K) (text : Text) (words : List Word) :
    LoopState K :=
  let tr := s.transcript
  let texts := tr.committedWordTexts ++ words.map (fun w => env.unicode.norm w.text)
  { s with
    display := { s.display with
      events := if env.config.onCommit then s.display.events
        else s.display.events ++ [.final text .committed (some tr.segmentIndex)] }
    transcript := { tr with
      commits := tr.commits ++ [(text, words)]
      committed := tr.committed ++ [text]
      committedWordTexts := texts.drop (texts.length - OVERLAP_LOOKBACK)
      segmentIndex := tr.segmentIndex + 1 } }

/-- `emit_unstable`. -/
def emitUnstable (s : LoopState K) (text : Text) : LoopState K :=
  if text ≠ [] ∧ text ≠ s.display.lastUnstable then
    { s with display := { s.display with
        events := s.display.events ++ [.final text .unstable none]
        lastUnstable := text } }
  else s

/-- `fresh_words`: the overlap dedupe, where the window holds audio already processed. -/
def freshWords (env : Env K) (s : LoopState K) (words : List Word) : List Word :=
  if s.window.processedThrough ≤ s.window.retainedStart then words
  else env.unicode.dropCommitted words s.transcript.committedWordTexts
    s.transcript.committedThrough

/-- The text `commit` would emit for `words`. -/
def freshText (env : Env K) (s : LoopState K) (words : List Word) : Text :=
  env.unicode.joinNatural (freshWords env s words)

/-- `commit`: emit the words no previous commit has; `true` when there was text. -/
def commit (env : Env K) (s : LoopState K) (words : List Word) : Bool × LoopState K :=
  if freshText env s words = [] then (false, s)
  else (true, emitCommitted env s
    (env.unicode.utteranceEdge (freshText env s words) s.transcript.committed.isEmpty)
    (freshWords env s words))

/-- The text watermark moves to `through`. -/
def coverTo (s : LoopState K) (through : Seconds) : LoopState K :=
  { s with transcript := { s.transcript with committedThrough := through } }

/-- What both boundaries do with the decision of `boundary_commit`: commit its words and move the
text watermark to its end. -/
def commitDecision (env : Env K) (s : LoopState K) (decision : Option CommitDecision) :
    Bool × LoopState K :=
  match decision with
  | none => (false, s)
  | some d =>
    let (produced, s) := commit env s d.commitWords
    (produced, coverTo s (max s.transcript.committedThrough d.commitEnd))

/-! ## Cuts -/

/-- What `cut_region` commits of its decode. A cut that keeps overlap holds back the words the next
region decodes again; a cut without overlap commits all. -/
def commitCut (env : Env K) (s : LoopState K) (hyp : Hypothesis) (cut : ℕ)
    (forced keepOverlap : Bool) : LoopState K :=
  if keepOverlap then
    let held := if forced then s.window.overlap else (toSamples TAIL_GUARD_S).toNat
    let retainFrom := max s.window.retainedStart (cut - held)
    (commitDecision env s (boundaryCommit hyp (secondsAt cut) (secondsAt retainFrom))).2
  else
    let s := (commit env s hyp.words).2
    coverTo s (max s.transcript.committedThrough (secondsAt cut))

/-- `cut_region`: decode `[start, cut)` once, commit it and retire it. -/
def cutRegion (env : Env K) (s : LoopState K) (cut : ℕ) (forced keepOverlap : Bool) :
    LoopState K :=
  let (hyp, s) := timedDecode env s .commit (s.window.samples none (some cut)) s.window.start
  let s := commitCut env s hyp cut forced keepOverlap
  { s with
    window := s.window.retire cut keepOverlap
    display := { s.display with lastUnstable := [], lastPartialWall := 0 } }

/-- `force_boundary` of a re-decode strategy: final-process the whole window and retire it. -/
def forceAgreement (env : Env K) (s : LoopState K) : LoopState K :=
  let cut := s.window.received
  let (hyp, s) := timedDecode env s .commit (s.window.samples none none) s.window.start
  let (produced, s) := commitDecision env s
    (boundaryCommit hyp (secondsAt cut) (((cut : ℚ) - s.window.overlap) / RATE))
  { s with
    lastHyp := none
    window := s.window.retire cut
    display := { s.display with
      lastUnstable := if produced then [] else s.display.lastUnstable } }

/-- Whether the loop takes a cut the strategy asks for: not closer than `MIN_DECODE_S` to the window
start, and past what is already processed. -/
def takesCut (s : LoopState K) (cut : Cut) : Bool :=
  !decide (cut.at_ - s.window.start < MIN_DECODE_S)
    && !decide (toSamples cut.at_ ≤ s.window.processedThrough)

/-- Only a cut at verified silence may retire without overlap. -/
def keepsOverlap (env : Env K) (cut : Cut) : Bool :=
  cut.forced || env.config.silenceCutOverlap || !cut.silent

/-- Take the cut the strategy asked for. -/
def takeCut (env : Env K) (s : LoopState K) (cut : Cut) : LoopState K :=
  { cutRegion env s (toSamples cut.at_).toNat cut.forced (keepsOverlap env cut) with
    cutTaken := true }

section

variable [Field K] [LinearOrder K]

/-- `force_boundary` of a chunked strategy: a forced cut at the newest sample. -/
def forceSilence (env : Env K) (s : LoopState K) (sc : SilenceCut K) : LoopState K :=
  let cut := s.window.received
  cutRegion env
    { s with
      strategy := .silenceCut (sc.markCut (secondsAt cut))
      vadLog := s.vadLog ++ [.cut ⟨secondsAt cut, true, false⟩ true] }
    cut true true

/-- `force_boundary`: the window is full and audio is still waiting. -/
def forceBoundary (env : Env K) (s : LoopState K) : LoopState K :=
  match s.strategy with
  | .silenceCut sc => forceSilence env s sc
  | .localAgreement => forceAgreement env s

/-- The samples the voice detector has not seen. -/
def unscanned (s : LoopState K) (sc : SilenceCut K) : List K :=
  (s.window.samples (some (s.window.retainedStart + sc.unscannedOffset s.window.start)) none).map
    (Rat.cast : ℚ → K)

/-- One pass of the inner `while True` of a chunked strategy. -/
def observeStep (env : Env K) (s : LoopState K) (sc : SilenceCut K) : LoopState K :=
  match sc.observe env.numerics (unscanned s sc) s.window.start s.window.ends
      (sc.unscannedOffset s.window.start) with
  | .error _ => { s with pc := .raised }
  | .ok (none, sc, activities) =>
    { s with
      pc := .boundary
      strategy := .silenceCut sc
      vadLog := s.vadLog ++ activities.map .frame }
  | .ok (some cut, sc, activities) =>
    let taken := takesCut s cut
    let s := { s with
      strategy := .silenceCut sc
      vadLog := s.vadLog ++ activities.map .frame ++ [.cut cut taken] }
    if taken then takeCut env s cut else { s with pc := .boundary }

end

/-! ## Ticks -/

/-- `_chunked_partial`: the words to show this tick, `[]` when there is nothing to show. -/
def chunkedPreview (env : Env K) (s : LoopState K) : List Word × LoopState K :=
  let whole := (s.window.samples none none, s.window.start)
  let (samples, offset) := match env.config.partials.tail with
    | none => whole
    | some tail =>
      if tail ≠ 0 ∧ tail < s.window.windowSeconds then
        let first : ℤ := s.window.received - toSamples tail
        (s.window.samples (some first) none, (first : ℚ) / RATE)
      else whole
  let (hyp, s) := timedDecode env s .preview samples offset
  (freshWords env s hyp.words, s)

/-- `partial_cadence_seconds` where it is set and not zero. -/
def partialCadence (env : Env K) : Option Seconds :=
  env.config.partials.cadence.filter (fun c => decide (c ≠ 0))

/-- The spacing of a chunked strategy's ticks, stretched by what the last one cost. -/
def tickSpacing (env : Env K) (s : LoopState K) : Seconds :=
  let budget := env.config.partials.budget.getD PARTIAL_BUDGET
  match partialCadence env with
  | none => env.config.cadence
  | some cadence =>
    if 0 < budget then max cadence (s.display.lastPartialWall / budget) else cadence

/-- One partial tick: decode the tail of the window and show its uncommitted words. -/
def previewTick (env : Env K) (s : LoopState K) : LoopState K :=
  let (words, s) := chunkedPreview env s
  let text := env.unicode.utteranceEdge (env.unicode.joinNatural words)
    s.transcript.committed.isEmpty
  let s := { s with display := { s.display with
    lastPartialWall := env.wall s.display.ticks
    ticks := s.display.ticks + 1 } }
  if text ≠ [] then emitUnstable s text else emit s .progress

/-- The tick of a chunked strategy: display only. -/
def silenceTick (env : Env K) (s : LoopState K) : LoopState K :=
  if s.cutTaken then s
  else if s.window.ends - s.display.lastDecodeEnd < tickSpacing env s then s
  else
    let s := { s with display := { s.display with lastDecodeEnd := s.window.ends } }
    if (partialCadence env).isSome ∧ MIN_DECODE_S ≤ s.window.windowSeconds then previewTick env s
    else emit s .progress

/-- What an agreement tick commits: the agreed prefix, where it reaches past the watermark. The
agreed audio is retired even when every word was a duplicate. -/
def agreementCommit (env : Env K) (s : LoopState K) (decision : Option CommitDecision) :
    Bool × LoopState K :=
  match decision with
  | none => (false, s)
  | some d =>
    if s.transcript.committedThrough < d.commitEnd then
      let (produced, s) := commit env s d.commitWords
      (produced, { coverTo s d.commitEnd with
        window := s.window.retire (toSamples d.commitEnd)
        display := { s.display with
          lastUnstable := if produced then [] else s.display.lastUnstable } })
    else (false, s)

/-- The display half of an agreement tick: the uncommitted remainder of the hypothesis, or a
liveness event on a quiet tick. -/
def agreementShow (env : Env K) (s : LoopState K) (hyp : Hypothesis) (produced : Bool) :
    LoopState K :=
  let before := s.display.lastUnstable
  let s := emitUnstable s
    (env.unicode.utteranceEdge (freshText env s hyp.words) s.transcript.committed.isEmpty)
  if produced ∨ s.display.lastUnstable ≠ before then s else emit s .progress

/-- The tick of a re-decode strategy. -/
def agreementTick (env : Env K) (s : LoopState K) : LoopState K :=
  if s.window.ends - s.display.lastDecodeEnd < env.config.cadence then s
  else
    let (hyp, s) := timedDecode env
      { s with display := { s.display with lastDecodeEnd := s.window.ends } }
      .tick (s.window.samples none none) s.window.start
    let decision := commitRule env.unicode s.lastHyp hyp s.window.ends
    let (produced, s) := agreementCommit env { s with lastHyp := some hyp } decision
    agreementShow env s hyp produced

/-! ## The end of the audio -/

/-- A remainder without overlap in which the VAD heard nothing since the last cut. -/
def silentRemainder (s : LoopState K) : Bool :=
  match s.strategy with
  | .localAgreement => false
  | .silenceCut sc =>
    decide (0 < s.window.processedThrough)
      && decide (s.window.processedThrough ≤ s.window.retainedStart) && !sc.heardSinceCut

/-- Whether the end of the audio decodes the remainder. -/
def decodesTail (env : Env K) (s : LoopState K) : Bool :=
  decide (s.window.processedThrough < s.window.received) && !silentRemainder s
    && (decide (s.window.processedThrough ≠ 0)
      || decide (env.config.minUtterance ≤ s.window.windowSeconds))

/-- The end of `_run`: resolve the tail and return the concatenation of the commits. -/
def resolveTail (env : Env K) (s : LoopState K) : LoopState K :=
  let s :=
    if decodesTail env s then
      let (hyp, s) := timedDecode env s .commit (s.window.samples none none) s.window.start
      (commit env s hyp.words).2
    else s
  { s with pc := .done, result := some s.transcript.committed.flatten }

/-! ## The machine -/

/-- Where a pass goes on once the window is filled. -/
def afterFill : Strategy K → Pc
  | .silenceCut _ => .observe
  | .localAgreement => .boundary

variable [Field K] [LinearOrder K]

/-- From one control point of `_run` to the next. -/
def step (env : Env K) (s : LoopState K) : LoopState K :=
  match s.pc with
  | .chunk =>
    match s.audio with
    | [] => { s with pc := .tail }
    | data :: audio =>
      { s with pc := .fill, audio := audio, pending := data, cutTaken := false }
  | .fill =>
    match s.window.fill s.pending with
    | .error _ => { s with pc := .raised }
    | .ok (taken, window) =>
      { s with
        pc := afterFill s.strategy
        window := window
        pending := s.pending.drop taken }
  | .observe =>
    match s.strategy with
    | .silenceCut sc => observeStep env s sc
    | .localAgreement => { s with pc := .boundary }
  | .boundary =>
    if s.pending = [] then { s with pc := .tick }
    else { forceBoundary env s with pc := .fill, cutTaken := true }
  | .tick =>
    match s.strategy with
    | .silenceCut _ => { silenceTick env s with pc := .chunk }
    | .localAgreement => { agreementTick env s with pc := .chunk }
  | .tail => resolveTail env s
  | .done => s
  | .raised => s

/-- `n` steps of the loop. -/
def run (env : Env K) (s : LoopState K) (n : ℕ) : LoopState K := (step env)^[n] s

/-- The loop over `audio`, after `n` steps. -/
def session (env : Env K) (strategy : Strategy K) (audio : List Bytes) (n : ℕ) : LoopState K :=
  run env (LoopState.init env strategy audio) n

end Loop

end Myna

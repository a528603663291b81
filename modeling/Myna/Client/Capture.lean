import Myna.Core.Audio
import Myna.Lib.Rounding
import Mathlib.Data.Rat.Floor

/-!
# Myna — audio and capture as the client sees them (`myna_core::audio`, `myna_core::capture`)

A source of audio yields chunks, then a clean end or one fault; apart from that it reports its
health. Both are told in the words of this module, and a fault is rendered for a log.
-/

namespace Myna

/-- Raw PCM stream description. -/
structure AudioFormat where
  sampleRateHz : ℕ := 16000
  channels : ℕ := 1
  sampleWidthBytes : ℕ := 2
deriving DecidableEq

def AudioFormat.bytesPerSecond (format : AudioFormat) : ℕ :=
  format.sampleRateHz * format.channels * format.sampleWidthBytes

structure PcmChunk where
  data : Bytes
  format : AudioFormat
deriving DecidableEq

/-- A capture-side fault. -/
inductive CaptureError
  | deviceUnavailable (cause : String)
  | serviceUnresponsive (cause : String)
  | noSource (cause : String)
  | noFlow (cause : String)
  | unsupportedFormat (format : AudioFormat)
  | backend (cause : String)
  | overloaded (seconds : ℚ)
deriving DecidableEq

namespace CaptureError

/-- `{:.1}` of a number of seconds. -/
def tenths (seconds : ℚ) : String :=
  let n := roundHalfEven (seconds * 10)
  s!"{n / 10}.{n % 10}"

/-- The texts of the `#[error]` attributes. -/
def toString : CaptureError → String
  | deviceUnavailable cause => s!"audio device unavailable: {cause}"
  | serviceUnresponsive cause => s!"audio service not responding: {cause}"
  | noSource cause => s!"audio device unavailable: {cause}"
  | noFlow cause => s!"audio device unavailable: {cause}"
  | unsupportedFormat format =>
    "requested format AudioFormat \x7b sample_rate_hz: " ++ s!"{format.sampleRateHz}"
      ++ ", channels: " ++ s!"{format.channels}"
      ++ ", sample_width_bytes: " ++ s!"{format.sampleWidthBytes}" ++ " \x7d cannot be produced"
  | backend cause => s!"capture backend failed: {cause}"
  | overloaded seconds => "audio buffer overflow after " ++ tenths seconds
      ++ "s - the transcription service cannot keep up with capture"

end CaptureError

/-- Capture lifecycle as seen without draining PCM. -/
inductive CaptureHealth
  | opening
  | capturing
  | faulted (fault : CaptureError)
  | ended
deriving DecidableEq

end Myna

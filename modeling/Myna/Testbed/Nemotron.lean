import Myna.Testbed.LanguageTags
import Myna.Testbed.ParakeetDecode

/-!
# Myna — Nemotron streaming (`myna.testbed.nemotron`)

Audio is turned into mel frames as its windows fill, the frames are stepped through a cache-aware
encoder chunk by chunk, and each step's tokens are final. The ONNX graphs are functions of the
model; an array of frames is the list of its columns.

* **`MelStream`** — the frames of a growing signal;
* **`Decoder`** — the greedy RNN-T decode;
* **`Stream`** — one session;
* **`Model.text`** — what `feed` and `finish` return, put together.
-/

namespace Myna

namespace Nemotron

def RATE : ℕ := 16000

/-- `int(FLUSH_S * RATE)`. -/
def FLUSH : ℕ := 2 * RATE

def MAX_SYMBOLS : ℕ := 10

/-- `Shape`. A step has new frames, a frame is whole samples after the one before it, and its
window has samples. -/
structure Shape where
  chunk : ℕ
  preCache : ℕ
  hop : ℕ
  nFft : ℕ
  chunk_pos : 0 < chunk
  hop_pos : 0 < hop
  nFft_pos : 0 < nFft

namespace Shape

def half (shape : Shape) : ℕ := shape.nFft / 2

/-- `-(-half // hop) + 1`: the hops the window reaches, and one for a pre-emphasis tap. -/
def context (shape : Shape) : ℕ := (shape.half + shape.hop - 1) / shape.hop + 1

end Shape

/-- The ONNX sessions of a model, for a stream's prompt. -/
structure Model (Sample Frame Encoded Caches S : Type) where
  shape : Shape
  pieces : List Text
  logMel : List Sample → List Frame
  silence : Sample
  zeroFrame : Frame
  encoder : List Frame → Caches → List Encoded × ℕ × Caches
  prompt : Option (List Encoded → List Encoded)
  joint : Encoded → ℕ → S → List ℚ × S
  zeroCaches : Caches
  zeroState : S

/-- `MelStream`. -/
structure MelStream (Sample Frame : Type) where
  audio : List Sample := []
  audioOrigin : ℕ := 0
  frames : Option (List Frame) := none
  origin : ℕ := 0
  count : ℕ := 0

/-- `MelStream.release`: forget the frames before `before`. -/
def MelStream.release {Sample Frame : Type} (mel : MelStream Sample Frame) (before : ℤ) :
    MelStream Sample Frame :=
  match mel.frames with
  | some frames =>
    if mel.origin < before then
      { mel with frames := some (frames.drop (before - mel.origin).toNat), origin := before.toNat }
    else mel
  | none => mel

/-- `Decoder`. -/
structure Decoder (S : Type) where
  state : S
  prev : ℕ

/-- `Stream`. `inputs`, which the source does not keep, is what the encoder was given so far. -/
structure Stream (Sample Frame Caches S : Type) where
  mel : MelStream Sample Frame := {}
  decoder : Decoder S
  caches : Caches
  nextFrame : ℕ := 0
  inputs : List (List Frame) := []

namespace Model

variable {Sample Frame Encoded Caches S : Type} (M : Model Sample Frame Encoded Caches S)

def blank : ℕ := M.pieces.length - 1

/-! ## Mel frames -/

/-- `MelStream.push`. -/
def push (mel : MelStream Sample Frame) (samples : List Sample) : MelStream Sample Frame :=
  let audio := mel.audio ++ samples
  let total := mel.audioOrigin + audio.length
  if total < M.shape.half then { mel with audio := audio } else
  let ready := (total - M.shape.half) / M.shape.hop + 1
  if ready ≤ mel.count then { mel with audio := audio } else
  let lo := (mel.count - M.shape.context) * M.shape.hop
  let feats := M.logMel (audio.drop (lo - mel.audioOrigin))
  let first := (mel.count * M.shape.hop - lo) / M.shape.hop
  let new := (feats.drop first).take (ready - mel.count)
  let drop := (ready - M.shape.context) * M.shape.hop - mel.audioOrigin
  { mel with
    audio := audio.drop drop
    audioOrigin := mel.audioOrigin + drop
    frames := some (mel.frames.elim new fun frames => frames ++ new)
    count := ready }

/-- `MelStream.frames`: frames from `start` to `stop`, zeros before the signal. -/
def frames (mel : MelStream Sample Frame) (start stop : ℤ) : List Frame :=
  let lead := (max 0 (-start)).toNat
  let got := mel.frames.elim [] fun frames =>
    (frames.take (stop - mel.origin).toNat).drop (max start 0 - mel.origin).toNat
  List.replicate lead M.zeroFrame ++ got

/-! ## Decoding -/

/-- The tokens at one encoder frame: until blank, or `n` of them. -/
def emit (frame : Encoded) : ℕ → Decoder S → List ℕ × Decoder S
  | 0, decoder => ([], decoder)
  | n + 1, decoder =>
    let (logits, state) := M.joint frame decoder.prev decoder.state
    let token := argmax logits
    if token = M.blank then ([], decoder)
    else
      let (tokens, decoder') := emit frame n { state := state, prev := token }
      (token :: tokens, decoder')

/-- `Decoder.decode`. -/
def decode : List Encoded → Decoder S → List ℕ × Decoder S
  | [], decoder => ([], decoder)
  | frame :: frames, decoder =>
    let (tokens, decoder) := M.emit frame MAX_SYMBOLS decoder
    let (more, decoder) := decode frames decoder
    (tokens ++ more, decoder)

/-- One step of the networks: the tokens of a chunk, and the caches and the decoder after it. -/
def network (x : List Frame) (caches : Caches) (decoder : Decoder S) :
    List ℕ × Caches × Decoder S :=
  let (encoded, length, caches) := M.encoder x caches
  let frames := encoded.take length
  let frames := M.prompt.elim frames fun prompt => prompt frames
  let (tokens, decoder) := M.decode frames decoder
  (tokens, caches, decoder)

/-! ## Streams -/

/-- `Stream.__post_init__`. -/
def start : Stream Sample Frame Caches S where
  decoder := { state := M.zeroState, prev := M.blank }
  caches := M.zeroCaches

/-- `_step`. -/
def step (stream : Stream Sample Frame Caches S) : List ℕ × Stream Sample Frame Caches S :=
  let x := M.frames stream.mel ((stream.nextFrame : ℤ) - M.shape.preCache)
    ((stream.nextFrame : ℤ) + M.shape.chunk)
  let (tokens, caches, decoder) := M.network x stream.caches stream.decoder
  (tokens, { stream with caches := caches, decoder := decoder, inputs := stream.inputs ++ [x] })

/-- The loop of `feed`: every chunk the frames complete, for at most `fuel` turns. -/
def stepAll : ℕ → Stream Sample Frame Caches S → List ℕ × Stream Sample Frame Caches S
  | 0, stream => ([], stream)
  | fuel + 1, stream =>
    if stream.nextFrame + M.shape.chunk ≤ stream.mel.count then
      let (tokens, stream) := M.step stream
      let next := stream.nextFrame + M.shape.chunk
      let (more, stream) := stepAll fuel
        { stream with
          nextFrame := next
          mel := stream.mel.release ((next : ℤ) - M.shape.preCache) }
      (tokens ++ more, stream)
    else ([], stream)

/-- `Stream.feed`. Every turn of the loop goes past a frame, so there are at most `count`. -/
def feed (stream : Stream Sample Frame Caches S) (samples : List Sample) :
    Text × Stream Sample Frame Caches S :=
  let mel := M.push stream.mel samples
  let (tokens, stream) := M.stepAll mel.count { stream with mel := mel }
  (detokenize M.pieces tokens, stream)

/-- The audio `finish` feeds. -/
def flush : List Sample := List.replicate FLUSH M.silence

/-- `Stream.finish`. -/
def finish (stream : Stream Sample Frame Caches S) : Text × Stream Sample Frame Caches S :=
  M.feed stream M.flush

/-- Audio fed chunk by chunk: the texts returned, put together. -/
def feeds : List (List Sample) → Stream Sample Frame Caches S →
    Text × Stream Sample Frame Caches S
  | [], stream => ([], stream)
  | samples :: more, stream =>
    let (text, stream) := M.feed stream samples
    let (texts, stream) := feeds more stream
    (text ++ texts, stream)

/-- The text of a session that is fed the chunks and finished. -/
def text (chunks : List (List Sample)) : Text :=
  let (text, stream) := M.feeds chunks M.start
  text ++ (M.finish stream).1

end Model

end Nemotron

end Myna

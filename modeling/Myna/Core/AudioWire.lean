import Myna.Core.Resample
import Myna.Core.SessionWire
import Myna.Lib.Base64

/-!
# Myna — what the model hears (`ws_unix_ie115::Ie115`, `transport_ws::read_frames`)

The client sends its chunks as binary frames or as base64 in JSON, and a commit after the last. The
server decodes what it is sent, converts it to the rate of the model and puts it into the ingress,
with a boundary after every utterance.

* **`Outbound.encode`**, **`readFrames`** — the two ends;
* **`model_hears`** — what the model hears is the audio of each utterance, whatever its framing.
-/

namespace Myna

namespace SessionWire

def INPUT_AUDIO_APPEND : String := "input_audio_buffer.append"

def INPUT_AUDIO_COMMIT : String := "input_audio_buffer.commit"

/-- A frame on the wire, a text frame as the JSON that it is. -/
inductive Message
  | text (value : Json)
  | binary (data : Bytes)

/-! ## The client -/

inductive Outbound
  | audio (chunk : PcmChunk)
  | finish
deriving DecidableEq

def appendFrame (chunk : PcmChunk) : Json :=
  .obj [("type", .str INPUT_AUDIO_APPEND),
    ("audio", .str (String.ofList (Base64.encode chunk.data)))]

/-- `Ie115::encode`. -/
def Outbound.encode (base64Audio : Bool) : Outbound → Message
  | .audio chunk => if base64Audio then .text (appendFrame chunk) else .binary chunk.data
  | .finish => .text (.obj [("type", .str INPUT_AUDIO_COMMIT)])

/-! ## The server -/

/-- `base64.b64decode` of a text, which must be ASCII. -/
def b64decode (text : String) : Option Bytes :=
  if text.toList.all fun c => c.toNat < 128 then Base64.decode text.toList else none

/-- `append_to_pcm` of a frame that is an object. -/
def appendToPcm (frame : Json) : Option Bytes :=
  match Server.get frame "audio" with
  | .error _ => none
  | .ok audio =>
    match Server.or audio (.str "") with
    | .str text => b64decode text
    | _ => none

/-- What the reader puts into the ingress. -/
inductive Put
  | audio (pcm : Bytes)
  | boundary
deriving DecidableEq

variable {K : Type*} [Field K] [LinearOrder K] [FloorRing K]

/-- What one frame does; with none the reader fails, and the audio is over. -/
def readFrame (r : Resampler K) : Message → Option (List Put × Resampler K)
  | .binary data => (r.feed data).map fun fed => ([.audio fed.1], fed.2)
  | .text message =>
    match Server.get message "type" with
    | .error _ => none
    | .ok (.str type) =>
      if type = INPUT_AUDIO_APPEND then
        (appendToPcm message).bind fun data =>
          (r.feed data).map fun fed => ([.audio fed.1], fed.2)
      else if type = INPUT_AUDIO_COMMIT then
        r.flush.map fun tail => ([.audio tail.1, .boundary], tail.2)
      else some ([], r)
    | .ok _ => some ([], r)

def readFrames (r : Resampler K) : List Message → Option (List Put × Resampler K)
  | [] => some ([], r)
  | message :: rest => do
    let (put, r) ← readFrame r message
    let (puts, r) ← readFrames r rest
    some (put ++ puts, r)

/-- The audio of every utterance that is over; `pending` is of the one that is not. -/
def heard (pending : Bytes) : List Put → List Bytes
  | [] => []
  | .audio pcm :: rest => heard (pending ++ pcm) rest
  | .boundary :: rest => pending :: heard [] rest

/-! ## One utterance -/

theorem digit_lt (n : ℕ) : (Base64.digit n).toNat < 128 := by
  by_cases hlt : n < 64
  · have hall : ∀ n < 64, (Base64.digit n).toNat < 128 := by decide +kernel
    exact hall n hlt
  · have hlength : Base64.alphabet.length = 64 := by decide +kernel
    have hpad : Base64.digit n = '=' := by
      unfold Base64.digit
      rw [List.getD_eq_getElem?_getD, List.getElem?_eq_none (by omega), Option.getD_none]
    rw [hpad]
    decide

theorem encode_ascii (bytes : Bytes) : ∀ c ∈ Base64.encode bytes, c.toNat < 128 := by
  fun_induction Base64.encode bytes with
  | case1 => simp
  | case2 a => simp [digit_lt]
  | case3 a b => simp [digit_lt]
  | case4 a b c rest ih => simpa [digit_lt] using ih

theorem b64decode_encode (bytes : Bytes) :
    b64decode (String.ofList (Base64.encode bytes)) = some bytes := by
  unfold b64decode
  rw [String.toList_ofList, if_pos, Base64.decode_encode]
  exact List.all_eq_true.mpr fun c hc => decide_eq_true (encode_ascii bytes c hc)

theorem appendToPcm_appendFrame (chunk : PcmChunk) :
    appendToPcm (appendFrame chunk) = some chunk.data := by
  set text := String.ofList (Base64.encode chunk.data) with htext
  have hor : Server.or (.str text) (.str "") = .str text := by
    by_cases hempty : text = ""
    · rw [hempty]
      rfl
    · exact if_pos (decide_eq_true hempty)
  show (match Server.or (.str text) (.str "") with
    | .str text => b64decode text
    | _ => none) = _
  rw [hor]
  exact b64decode_encode chunk.data

/-- Both framings carry the same bytes. -/
theorem readFrame_audio (r : Resampler K) (base64Audio : Bool) (chunk : PcmChunk) :
    readFrame r (Outbound.encode base64Audio (.audio chunk)) =
      (r.feed chunk.data).map fun fed => ([.audio fed.1], fed.2) := by
  cases base64Audio with
  | false => rfl
  | true =>
    show (appendToPcm (appendFrame chunk)).bind (fun data =>
      (r.feed data).map fun fed => ([Put.audio fed.1], fed.2)) = _
    rw [appendToPcm_appendFrame]
    rfl

theorem readFrame_finish (r : Resampler K) (base64Audio : Bool) :
    readFrame r (Outbound.encode base64Audio .finish) =
      r.flush.map fun tail => ([.audio tail.1, .boundary], tail.2) := rfl

theorem readFrames_cons (r : Resampler K) (message : Message) (rest : List Message) :
    readFrames r (message :: rest) = (readFrame r message).bind fun read =>
      (readFrames read.2 rest).map fun more => (read.1 ++ more.1, more.2) := by
  cases hread : readFrame r message with
  | none => simp [readFrames, hread]
  | some read => cases hmore : readFrames read.2 rest <;> simp [readFrames, hread, hmore]

theorem convert_cons (r : Resampler K) (pcm : Bytes) (rest : List Bytes) :
    r.convert (pcm :: rest) = (r.feed pcm).bind fun fed =>
      (fed.2.convert rest).map fun more => (fed.1 ++ more.1, more.2) := by
  cases hfed : r.feed pcm with
  | none => simp [Resampler.convert, hfed]
  | some fed => cases hmore : fed.2.convert rest <;> simp [Resampler.convert, hfed, hmore]

/-- What one utterance sends: its chunks, each in either framing, and the commit. -/
def utterance (chunks : List (Bool × PcmChunk)) : List Message :=
  (chunks.map fun chunk => Outbound.encode chunk.1 (.audio chunk.2)) ++
    [Outbound.encode false .finish]

/-- One utterance, and whatever follows: the converter is fed its chunks and flushed. -/
theorem readFrames_utterance {r r' : Resampler K} {chunks : List (Bool × PcmChunk)} {out : Bytes}
    (hconvert : r.convert (chunks.map fun chunk => chunk.2.data) = some (out, r'))
    (rest : List Message) :
    ∃ puts, readFrames r (utterance chunks ++ rest) =
        (readFrames r' rest).map (fun more => (puts ++ more.1, more.2)) ∧
      ∀ pending more, heard pending (puts ++ more) = (pending ++ out) :: heard [] more := by
  induction chunks generalizing r out with
  | nil =>
    have hflush : r.flush = some (out, r') := hconvert
    refine ⟨[.audio out, .boundary], ?_, fun pending more => rfl⟩
    show readFrames r (Outbound.encode false .finish :: rest) = _
    rw [readFrames_cons, readFrame_finish, hflush]
    rfl
  | cons chunk chunks ih =>
    rw [List.map_cons, convert_cons] at hconvert
    obtain ⟨fed, hfed, hmapped⟩ := Option.bind_eq_some_iff.mp hconvert
    obtain ⟨⟨outs, last⟩, hrest, heq⟩ := Option.map_eq_some_iff.mp hmapped
    obtain ⟨rfl, rfl⟩ := Prod.mk.inj heq
    obtain ⟨puts, hread, hheard⟩ := ih hrest
    refine ⟨.audio fed.1 :: puts, ?_, fun pending more => ?_⟩
    · show readFrames r (Outbound.encode chunk.1 (.audio chunk.2) :: (utterance chunks ++ rest)) = _
      rw [readFrames_cons, readFrame_audio, hfed]
      show (readFrames fed.2 (utterance chunks ++ rest)).map _ = _
      rw [hread, Option.map_map]
      rfl
    · show heard (pending ++ fed.1) (puts ++ more) = _
      rw [hheard, List.append_assoc]

/-! ## A connection -/

variable [IsStrictOrderedRing K]

/-- **What the model hears is the audio of each utterance**, at its own rate: for every number of
utterances on a connection, however each is cut into chunks and whichever framing each chunk has,
it is what the converter makes of the utterance's audio in one piece. -/
theorem model_hears (kernel : Kernel K) {srcHz dstHz : ℤ} {r : Resampler K}
    (hnew : Resampler.new kernel srcHz dstHz = .ok r) (spoken : List (List (Bool × PcmChunk))) :
    ∃ puts, readFrames r (spoken.flatMap utterance) = some (puts, r) ∧
      (heard [] puts).map some = spoken.map fun chunks =>
        (r.convert [(chunks.map fun chunk => chunk.2.data).flatten]).map Prod.fst := by
  rw [Resampler.new] at hnew
  split_ifs at hnew with hpos
  obtain rfl := Except.ok.inj hnew
  obtain ⟨hcoprime, -⟩ := Resampler.reduce_spec (show 0 < srcHz.toNat by omega)
    (show 0 < dstHz.toNat by omega)
  induction spoken with
  | nil => exact ⟨[], rfl, rfl⟩
  | cons chunks spoken ih =>
    obtain ⟨puts, hread, hheard⟩ := ih
    have hpieces := Resampler.convert_start kernel hcoprime (chunks.map fun chunk => chunk.2.data)
    have hwhole := Resampler.convert_start kernel hcoprime
      [(chunks.map fun chunk => chunk.2.data).flatten]
    rw [List.flatten_singleton] at hwhole
    obtain ⟨first, hfirst, hpending⟩ :=
      readFrames_utterance hpieces (spoken.flatMap utterance)
    refine ⟨first ++ puts, ?_, ?_⟩
    · rw [List.flatMap_cons, hfirst, hread]
      rfl
    · rw [hpending, List.map_cons, hheard, List.map_cons, hwhole]
      rfl

end SessionWire

end Myna

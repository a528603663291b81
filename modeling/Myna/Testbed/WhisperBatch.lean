import Mathlib.Data.List.Range
import Myna.Lib.Strip
import Myna.Streaming.Words

/-!
# Myna — Whisper's batch session (`myna.testbed.whisper`)

A region of the audio is decoded, again with its edges nudged where the decode left speech out,
and the words that the loop commits become one final for each of Whisper's segments. Words are told
apart by what they are, not by what they say: `WordObject` gives each its identity. The decoder,
its tokeniser and the measure of untranscribed speech are a parameter, `Whisper`.

* **`decode`** — one region, and the best of its decodes;
* **`onCommit`** — the finals of the words that were committed;
* **`Run`** — regions that are decoded, and the words of them that are committed.
-/

namespace Myna

namespace WhisperBatch

/-! ## What the decoder returns -/

/-- An aligned word; times are from the start of what was decoded. -/
structure Aligned where
  word : Text
  start : Seconds
  stop : Seconds
  probability : ℚ

/-- A segment; one that was not aligned has no words. -/
structure DecodedSegment where
  text : Text
  words : List Aligned
  tokens : List ℕ
  start : Seconds
  stop : Seconds
  avgLogprob : ℚ

inductive Prompt
  | tokens (ids : List ℕ)
  | text (prompt : Option Text)

structure Request where
  samples : List ℚ
  language : Option Text
  prompt : Prompt
  wordTimestamps : Bool

/-- The decoder, whose `n`th call may answer anything, its tokeniser, and `untranscribed_gap`. -/
structure Whisper where
  transcribe : ℕ → Request → List DecodedSegment × Text
  textTokens : Text → List ℕ
  untranscribedGap : List ℚ → List (Seconds × Seconds) → ℚ

inductive Granularity
  | word
  | segment
deriving DecidableEq

structure Config where
  language : Option Text
  prompt : Option Text
  granularity : Option Granularity

/-! ## The session -/

/-- A `Word` object. -/
structure WordObject where
  id : ℕ
  word : Word
deriving DecidableEq

/-- A segment in `region`, with its words and the audio time it is decoded from. -/
structure Entry where
  segment : DecodedSegment
  pairs : List (WordObject × Option Aligned)
  origin : Seconds

structure TimedSegment where
  start : Seconds
  stop : Seconds
  text : Text
  score : ℚ

/-- A committed `TranscriptionFinal`. -/
structure Final where
  text : Text
  segments : List TimedSegment

/-- The variables of the session, and how many words and calls of the decoder it has made. -/
structure Session where
  language : Option Text
  context : List ℕ
  decoded : Bool := false
  processed : ℤ := 0
  region : List Entry := []
  finals : List Final := []
  calls : ℕ := 0
  nextId : ℕ := 0

def CONTEXT_TOKENS : ℕ := 223

def RETRY_PADS : List Seconds := [2 / 10, 3 / 10]

def UNTRANSCRIBED_GAP_S : Seconds := 2

def BATCH_FORCE_CUT_S : Seconds := 60

/-- `context.extend`, of a queue that keeps the last tokens. -/
def extended (context tokens : List ℕ) : List ℕ :=
  (context ++ tokens).drop ((context ++ tokens).length - CONTEXT_TOKENS)

section

variable (U : Unicode) (whisper : Whisper) (config : Config)

def Session.start : Session where
  language := config.language
  context := match config.prompt with
    | some prompt => extended [] (whisper.textTokens (' ' :: U.strip prompt))
    | none => []

/-! ## `decode_once` -/

/-- `_UNALIGNED_WORD.findall`, after `current`, whose last character is no whitespace if `inked`. -/
def unalignedFrom (current : Text) (inked : Bool) : Text → List Text
  | [] => if inked then [current] else []
  | c :: rest =>
    if U.isSpace c then
      if inked then current :: unalignedFrom [c] false rest
      else unalignedFrom (current ++ [c]) false rest
    else unalignedFrom (current ++ [c]) true rest

def unalignedWords (text : Text) : List Text := unalignedFrom U [] false text

/-- A region's own bounds, and the audio time of its first sample. -/
structure Place where
  origin : Seconds
  floor : Seconds
  ceiling : Seconds

def Place.clamp (place : Place) (t : Seconds) : Seconds :=
  min (max (t + place.origin) place.floor) place.ceiling

def Place.at (place : Place) (id : ℕ) (text : Text) (start stop : Seconds) : WordObject :=
  ⟨id, ⟨text, place.clamp start, place.clamp stop⟩⟩

/-- The words of a segment, the first of which is the `id`th object. -/
def pairsOf (place : Place) (id : ℕ) (segment : DecodedSegment) :
    List (WordObject × Option Aligned) :=
  if segment.words ≠ [] then
    (segment.words.zipIdx id).map fun a => (place.at a.2 a.1.word a.1.start a.1.stop, some a.1)
  else
    ((unalignedWords U segment.text).zipIdx id).map fun text =>
      (place.at text.2 text.1 segment.start segment.stop, none)

def entriesOf (place : Place) : ℕ → List DecodedSegment → List Entry
  | _, [] => []
  | id, segment :: rest =>
    let pairs := pairsOf U place id segment
    ⟨segment, pairs, place.origin⟩ :: entriesOf place (id + pairs.length) rest

/-- The words of a region. -/
def wordsOf (region : List Entry) : List WordObject :=
  region.flatMap fun entry => entry.pairs.map Prod.fst

namespace Session

variable (s : Session)

/-- `decode_once`; what it returns is the words of the region. -/
def decodeOnce (samples : List ℚ) (place : Place) (wordTimestamps : Bool) : Session :=
  let prompt := if s.decoded then .tokens s.context else .text config.prompt
  let (segments, language) :=
    whisper.transcribe s.calls ⟨samples, s.language, prompt, wordTimestamps⟩
  let region := entriesOf U place s.nextId segments
  { s with
    region
    language := s.language.or (some language)
    calls := s.calls + 1
    nextId := s.nextId + (wordsOf region).length }

end Session

/-! ## `decode` -/

/-- What the last decode accounts for, in region seconds. -/
def accounted (region : List Entry) (offset : Seconds) : List (Seconds × Seconds) :=
  region.flatMap fun entry =>
    match entry.pairs with
    | (first, none) :: rest =>
      let last := ((first, none) :: rest).getLast (List.cons_ne_nil _ _)
      [(first.word.start - offset, last.1.word.stop - offset)]
    | pairs => pairs.map fun pair =>
      (pair.1.word.start - offset, pair.1.word.start - offset)

/-- `(gap, -len(words))`. -/
def rankOf (samples : List ℚ) (offset : Seconds) (region : List Entry) : ℚ × ℤ :=
  (whisper.untranscribedGap samples (accounted region offset), -((wordsOf region).length : ℤ))

def rankLt (a b : ℚ × ℤ) : Bool := a.1 < b.1 || (a.1 = b.1 && a.2 < b.2)

/-- The samples with silence before and after. -/
def padded (samples : List ℚ) (padS : Seconds) : List ℚ :=
  let pad := List.replicate (toSamples padS).toNat 0
  pad ++ samples ++ pad

namespace Session

/-- The nudged re-decodes: the best region and its rank. -/
def retry (samples : List ℚ) (offset stop : Seconds) (wordTimestamps : Bool) :
    List Seconds → List Entry × (ℚ × ℤ) → Session → List Entry × Session
  | [], best, s => (best.1, s)
  | padS :: pads, best, s =>
    let s := s.decodeOnce U whisper config (padded samples padS) ⟨offset - padS, offset, stop⟩
      wordTimestamps
    let rank := rankOf whisper samples offset s.region
    let best := if rankLt rank best.2 then (s.region, rank) else best
    if best.2.1 < UNTRANSCRIBED_GAP_S then (best.1, s)
    else retry samples offset stop wordTimestamps pads best s

/-- The end of a region. -/
def stopOf (samples : List ℚ) (offset : Seconds) : Seconds := offset + samples.length / RATE

/-- `decode`: the region's words, and the session after it. -/
def decode (s : Session) (samples : List ℚ) (offset : Seconds) : List WordObject × Session :=
  let first := toSamples offset
  let wordTimestamps := config.granularity.isSome || first < s.processed ||
    toSamples BATCH_FORCE_CUT_S ≤ samples.length
  let stop := stopOf samples offset
  let s := s.decodeOnce U whisper config samples ⟨offset, offset, stop⟩ wordTimestamps
  let rank := rankOf whisper samples offset s.region
  let (region, s) :=
    if UNTRANSCRIBED_GAP_S ≤ rank.1 then
      s.retry U whisper config samples offset stop wordTimestamps RETRY_PADS (s.region, rank)
    else (s.region, s)
  (wordsOf region,
    { s with region, decoded := true, processed := first + samples.length })

end Session

/-! ## `on_commit` -/

/-- `_timed_segments`. -/
def timedSegments (segment : DecodedSegment) (words : List (WordObject × Option Aligned))
    (text : Text) (offset : Seconds) : List TimedSegment :=
  match config.granularity with
  | none => []
  | some granularity =>
    let aligned := words.filterMap fun pair =>
      pair.2.bind fun a => if U.strip a.word ≠ [] then some (pair.1.word, a) else none
    if granularity = .word ∧ aligned ≠ [] then
      aligned.map fun w => ⟨w.1.start, w.1.stop, U.strip w.2.word, w.2.probability⟩
    else
      [⟨(aligned.head?.map (·.1.start)).getD (segment.start + offset),
        (aligned.getLast?.map (·.1.stop)).getD (segment.stop + offset), text, segment.avgLogprob⟩]

/-- The words of a segment that were committed. -/
def Entry.kept (entry : Entry) (ids : List ℕ) : List (WordObject × Option Aligned) :=
  entry.pairs.filter fun pair => pair.1.id ∈ ids

/-- The text of a segment, as a whole or as its words that were committed. -/
def Entry.text (entry : Entry) (ids : List ℕ) : Text :=
  if (entry.kept ids).length = entry.pairs.length then U.rstrip entry.segment.text
  else U.rstrip ((entry.kept ids).flatMap fun pair => pair.1.word.text)

def Entry.tokens (entry : Entry) (ids : List ℕ) : List ℕ :=
  if (entry.kept ids).length = entry.pairs.length then entry.segment.tokens
  else whisper.textTokens (entry.text U ids)

namespace Session

/-- One turn of the loop over the region. -/
def present (ids : List ℕ) (s : Session) (entry : Entry) : Session :=
  let text := entry.text U ids
  if text = [] then s
  else
    let shown := if s.finals.isEmpty then U.lstrip text else text
    { s with
      context := extended s.context (entry.tokens U whisper ids)
      finals := s.finals ++
        [⟨shown, timedSegments U config entry.segment (entry.kept ids) shown entry.origin⟩] }

/-- `on_commit`. -/
def onCommit (s : Session) (committed : List WordObject) : Session :=
  { s.region.foldl (present U whisper config (committed.map WordObject.id)) s with region := [] }

end Session

/-- The decoder's documented contract: aligned words make up their segment's text. -/
def Aligns : Prop :=
  ∀ n request, ∀ segment ∈ (whisper.transcribe n request).1, segment.words ≠ [] →
    segment.words.flatMap Aligned.word = segment.text

/-- A run, and the words that have been committed: the loop decodes a region, and commits some of
its words, or none of them and says nothing of it. -/
inductive Run : List WordObject → Session → Prop
  | start : Run [] (.start U whisper config)
  | skipped {all : List WordObject} {s : Session} (samples : List ℚ) (offset : Seconds)
      (run : Run all s) : Run all (s.decode U whisper config samples offset).2
  | committed {all committed : List WordObject} {s : Session} (samples : List ℚ)
      (offset : Seconds) (run : Run all s)
      (hwords : committed.Sublist (s.decode U whisper config samples offset).1) :
      Run (all ++ committed)
        ((s.decode U whisper config samples offset).2.onCommit U whisper config committed)

end

end WhisperBatch

end Myna

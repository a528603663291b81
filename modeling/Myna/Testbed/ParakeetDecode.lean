import Mathlib.Data.List.MinMax
import Myna.Lib.While
import Myna.Testbed.KeywordBias

/-!
# Myna — the greedy decode of parakeet (`_decode_sequence` of `myna.testbed.parakeet`)

A greedy TDT decode whose choices a keyword automaton re-ranks. A boosted match stays provisional
until its keyword completes: if it breaks first, or the audio ends inside it, the loop goes back to
where the match began. The two ONNX buffers of the decoder are its state: `state_in` is part of the
place, and the output of a step is adopted or left alone.

* **`rerank`** — the choice under the bias;
* **`Place`**, **`Loop`** — where the loop stands, and what it holds;
* **`body`** — one turn;
* **`decode`** — the loop of `_decode_sequence`, up to `bias.correct`;
* **`greedy`** — the plain greedy decode it is compared with.
-/

namespace Myna

/-- `np.argmax`: the first index of a greatest element. -/
def argmax {α : Type} [Preorder α] [DecidableLT α] (xs : List α) : ℕ :=
  ((xs.zipIdx.argmax Prod.fst).map Prod.snd).getD 0

namespace KeywordBias

/-- The score of an offered token: its boosted logit, or minus infinity for the rival's own. -/
def score (logits : List ℚ) (token : ℕ) (rival : Bool) (offered : ℕ × ℚ) : WithBot ℚ :=
  if rival ∧ offered.1 = token then ⊥
    else (((logits[offered.1]?).getD 0 + offered.2 : ℚ) : WithBot ℚ)

/-- `rerank`: the token, or the candidate whose boosted logit strictly beats it. A rival is never
the token itself. -/
def rerank (bias : KeywordBias) (state : ℕ) (logits : List ℚ) (token : ℕ) (rival : Bool) : ℕ :=
  let offer := bias.offer state
  let scores := offer.map (score logits token rival)
  let best := argmax scores
  if (((logits[token]?).getD 0 : ℚ) : WithBot ℚ) < (scores[best]?).getD ⊥
  then (offer[best]?).elim token Prod.fst
  else token

end KeywordBias

namespace Parakeet

open KeywordBias (ROOT)

def FRAME_S : ℚ := 8 / 100

def MAX_TOKENS_PER_STEP : ℕ := 10

/-- What the loop asks of a matcher. -/
structure Matcher where
  rerank : ℕ → List ℚ → ℕ → Bool → ℕ
  advance : ℕ → ℕ → ℕ × Bool
  complete : ℕ → Bool

/-- `_Unbiased`: keeps the model's choice, and no match ever starts. -/
def UNBIASED : Matcher where
  rerank _ _ token _ := token
  advance _ _ := (ROOT, false)
  complete _ := false

/-- A session's keywords as a matcher. -/
def biased (bias : KeywordBias) : Matcher where
  rerank := bias.rerank
  advance := bias.advance
  complete state := bias.complete.contains state

/-- `bias or _UNBIASED`. -/
def matcher (bias : Option KeywordBias) : Matcher :=
  bias.elim UNBIASED biased

/-- The loaded model: its joint network, over frames of the encoder and states of the decoder, and
its vocabulary. -/
structure Model (Frame S : Type) where
  vocab : List Text
  blankIdx : ℕ
  joint : Frame → ℕ → S → List ℚ × S
  zeroState : S
  probability : List ℚ → ℕ → ℚ

/-- Where the loop stands: the frame and what was emitted at it, the token and the decoder state the
next step is given, and the state of the match. -/
structure Place (S : Type) where
  t : ℕ
  emittedAtFrame : ℕ
  prevToken : ℕ
  state : ℕ
  decoderState : S

/-- `_Rewind`: the place just before the first token of a match, and how many tokens stood there. -/
structure Rewind (S : Type) where
  place : Place S
  nTokens : ℕ
  own : Bool

/-- The variables of the loop. -/
structure Loop (S : Type) where
  tokens : List Text := []
  timestamps : List ℚ := []
  confidences : List ℚ := []
  here : Place S
  rewind : Option (Rewind S) := none
  unbiased : Bool := false
  rival : Bool := false

section Decode

variable {Frame S : Type} (M : Model Frame S) (encodings : ℕ → Frame) (encodingsLen : ℕ)

namespace Model

/-- `_decode_step` at a place: the logits, and the new decoder state. -/
def step (p : Place S) : List ℚ × S := M.joint (encodings p.t) p.prevToken p.decoderState

def vocabLogits (p : Place S) : List ℚ := (M.step encodings p).1.take M.vocab.length

def durLogits (p : Place S) : List ℚ := (M.step encodings p).1.drop M.vocab.length

/-- The model's own choice. -/
def own (p : Place S) : ℕ := argmax (M.vocabLogits encodings p)

/-- `self._vocab[token]`. -/
def piece (token : ℕ) : Text := (M.vocab[token]?).getD []

/-- The end of a turn: on by the duration, or by one frame after a blank or too many tokens. -/
def moveOn (p : Place S) (token duration : ℕ) : Place S :=
  if 0 < duration then { p with t := p.t + duration, emittedAtFrame := 0 }
  else if token = M.blankIdx ∨ p.emittedAtFrame = MAX_TOKENS_PER_STEP then
    { p with t := p.t + 1, emittedAtFrame := 0 }
  else p

/-- The new decoder state is adopted with the token. -/
def adopt (p : Place S) (token after : ℕ) : Place S :=
  { p with
    state := after, decoderState := (M.step encodings p).2, prevToken := token
    emittedAtFrame := p.emittedAtFrame + 1 }

/-- Where a turn that takes the token leads; a blank leaves the decoder and the match alone. -/
def take (m : Matcher) (p : Place S) (token : ℕ) : Place S :=
  let duration := argmax (M.durLogits encodings p)
  if token = M.blankIdx then M.moveOn p token duration
  else M.moveOn (M.adopt encodings p token (m.advance p.state token).1) token duration

end Model

namespace Loop

/-- What a turn settles on before it takes the token. -/
structure Pick (S : Type) where
  token : ℕ
  rewind : Option (Rewind S)
  fresh : Bool

/-- The choice of a turn, and the rewind it leaves behind where a match begins with it. -/
def pick (m : Matcher) (L : Loop S) : Pick S :=
  let token := M.own encodings L.here
  if token ≠ M.blankIdx ∧ L.unbiased = false then
    let chosen := m.rerank L.here.state (M.vocabLogits encodings L.here) token L.rival
    let starts := decide (chosen = token) && !L.rival && decide (L.here.state = ROOT) &&
      (m.advance L.here.state token).2
    if (chosen ≠ token ∨ starts = true) ∧ L.rewind.isNone then
      { token := chosen, rewind := some ⟨L.here, L.tokens.length, starts⟩, fresh := true }
    else { token := chosen, rewind := L.rewind, fresh := false }
  else { token := token, rewind := L.rewind, fresh := false }

/-- The picked token breaks the match in progress. -/
def broken (m : Matcher) (L : Loop S) (p : Pick S) : Bool :=
  decide (p.token ≠ M.blankIdx) && p.rewind.isSome &&
    !((m.advance L.here.state p.token).2 || p.fresh)

/-- The picked token is taken. -/
def keep (bias : Option KeywordBias) (L : Loop S) (p : Pick S) : Loop S :=
  let m := matcher bias
  let here := M.take encodings m L.here p.token
  if p.token = M.blankIdx then
    { L with here := here, rewind := p.rewind, unbiased := false, rival := false }
  else
    { tokens := L.tokens ++ [M.piece p.token]
      timestamps := L.timestamps ++ [L.here.t * FRAME_S]
      confidences := L.confidences ++
        (if bias.isSome then [M.probability (M.vocabLogits encodings L.here) p.token] else [])
      here := here
      rewind := if m.complete (m.advance L.here.state p.token).1 then none else p.rewind
      unbiased := false
      rival := false }

/-- Back to where the match began. The rewind is there: only a provisional match breaks. -/
def goBack (L : Loop S) : Option (Rewind S) → Loop S
  | none => L
  | some r =>
    { tokens := L.tokens.take r.nTokens
      timestamps := L.timestamps.take r.nTokens
      confidences := L.confidences.take r.nTokens
      here := r.place
      rewind := none
      rival := r.own
      unbiased := !r.own }

/-- `while t < encodings_len or rewind is not None`. -/
def test (L : Loop S) : Bool := decide (L.here.t < encodingsLen) || L.rewind.isSome

/-- One turn of the loop. -/
def body (bias : Option KeywordBias) (L : Loop S) : Loop S :=
  if L.here.t < encodingsLen then
    let p := L.pick M encodings (matcher bias)
    if L.broken M (matcher bias) p then L.goBack p.rewind else L.keep M encodings bias p
  else L.goBack L.rewind

/-- The turn takes a token that completes a keyword. -/
def completes (m : Matcher) (L : Loop S) : Prop :=
  let p := L.pick M encodings m
  L.here.t < encodingsLen ∧ L.broken M m p = false ∧ p.token ≠ M.blankIdx ∧
    m.complete (m.advance L.here.state p.token).1 = true

end Loop

/-- The place the loop starts at. -/
def Model.start : Place S :=
  { t := 0, emittedAtFrame := 0, prevToken := M.blankIdx, state := ROOT,
    decoderState := M.zeroState }

/-- `_decode_sequence`, up to `bias.correct`, for at most `fuel` turns. -/
def decode (bias : Option KeywordBias) (fuel : ℕ) : Option (Loop S) :=
  While.whileLoop (Loop.test encodingsLen) (Loop.body M encodings encodingsLen bias) fuel
    { here := M.start }

/-! ## The plain decode -/

/-- The variables of the plain greedy decode. -/
structure Greedy (S : Type) where
  tokens : List Text := []
  timestamps : List ℚ := []
  t : ℕ := 0
  emittedAtFrame : ℕ := 0
  prevToken : ℕ
  decoderState : S

/-- The argmax token; on non-blank the decoder state is updated; the duration head skips forward; a
blank, or too many tokens at one frame, advances one. -/
def Greedy.body (g : Greedy S) : Greedy S :=
  let (logits, state) := M.joint (encodings g.t) g.prevToken g.decoderState
  let token := argmax (logits.take M.vocab.length)
  let duration := argmax (logits.drop M.vocab.length)
  let emitted := if token = M.blankIdx then g.emittedAtFrame else g.emittedAtFrame + 1
  let stays := duration = 0 ∧ ¬ (token = M.blankIdx ∨ emitted = MAX_TOKENS_PER_STEP)
  { tokens := if token = M.blankIdx then g.tokens else g.tokens ++ [M.piece token]
    timestamps := if token = M.blankIdx then g.timestamps else g.timestamps ++ [g.t * FRAME_S]
    t := if 0 < duration then g.t + duration else if stays then g.t else g.t + 1
    emittedAtFrame := if stays then emitted else 0
    prevToken := if token = M.blankIdx then g.prevToken else token
    decoderState := if token = M.blankIdx then g.decoderState else state }

def Greedy.test (g : Greedy S) : Bool := decide (g.t < encodingsLen)

/-- The plain greedy TDT decode, for at most `fuel` turns. -/
def greedy (fuel : ℕ) : Option (Greedy S) :=
  While.whileLoop (Greedy.test encodingsLen) (Greedy.body M encodings) fuel
    { prevToken := M.blankIdx, decoderState := M.zeroState }

end Decode

end Parakeet

end Myna

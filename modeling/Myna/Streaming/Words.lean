import Myna.Streaming.Window
import Mathlib.Data.List.DropRight

/-!
# Myna — words, hypotheses and their text

The text half of `streaming/strategies.py` and `streaming/loop.py`: the `Word` a decoder returns
and the string functions the loop applies to word texts. Python's `str` methods consult the
Unicode database, which is no part of the repository: `Unicode` is what they ask of it, and every
result below holds whatever its answers are.

* **`norm`**, **`squash`** — the comparison forms of a word;
* **`joinNatural`**, **`utteranceEdge`** — how a commit's words become its text;
* **`utteranceEdge_joinNatural_ne_nil`** — trimming the first emission's leading space never
  empties a text that had survived the trailing trim.
-/

namespace Myna

abbrev Text := List Char

/-- What Python's `str.isspace`, `str.isalnum` and `str.lower` answer. -/
structure Unicode where
  isSpace : Char → Bool
  isAlnum : Char → Bool
  lower : Text → Text

/-- The answers on ASCII text. -/
def Unicode.ascii : Unicode where
  isSpace c := c.isWhitespace
  isAlnum c := c.isAlphanum
  lower t := t.map Char.toLower

/-- A recognised word; times are absolute session seconds (`stop` is the source's `end`). -/
structure Word where
  text : Text
  start : Seconds
  stop : Seconds
deriving DecidableEq

/-- One decode of the uncommitted window. -/
structure Hypothesis where
  words : List Word := []

namespace Unicode

variable (U : Unicode)

/-- `str.lstrip()`. -/
def lstrip (text : Text) : Text := text.dropWhile U.isSpace

/-- `str.rstrip()`. -/
def rstrip (text : Text) : Text := text.rdropWhile U.isSpace

/-- `str.strip()`. -/
def strip (text : Text) : Text := U.rstrip (U.lstrip text)

/-- `str.strip(chars)`. -/
def stripChars (chars text : Text) : Text :=
  (text.dropWhile (fun c => chars.contains c)).rdropWhile (fun c => chars.contains c)

/-- The punctuation `_norm` strips: `.,!?;:"'“”`. -/
def punctuation : Text := ['.', ',', '!', '?', ';', ':', '\x22', '\x27', '\u201c', '\u201d']

/-- `_norm`: the form the dedupe history is kept in. -/
def norm (text : Text) : Text := stripChars punctuation (U.lower (U.strip text))

/-- `_squash`: lowercased alphanumerics only; word boundaries and punctuation vanish. -/
def squash (text : Text) : Text := (U.lower text).filter U.isAlnum

/-- `_join_natural`: the verbatim join of the word texts, trailing whitespace trimmed. -/
def joinNatural (words : List Word) : Text := U.rstrip (words.flatMap Word.text)

/-- `_utterance_edge`: an utterance's first emission sheds its leading space. -/
def utteranceEdge (text : Text) (first : Bool) : Text := if first then U.lstrip text else text

/-- A text that a trailing trim leaves as it is, and that is not empty. -/
def Trimmed (text : Text) : Prop := ∃ h : text ≠ [], U.isSpace (text.getLast h) = false

/-- A text that does not begin with whitespace. -/
def NoLeadingSpace (text : Text) : Prop := ∀ c rest, text = c :: rest → U.isSpace c = false

variable {U}

theorem joinNatural_trimmed {words : List Word} (h : U.joinNatural words ≠ []) :
    U.Trimmed (U.joinNatural words) := by
  refine ⟨h, ?_⟩
  exact Bool.eq_false_iff.mpr (List.rdropWhile_last_not U.isSpace (words.flatMap Word.text) h)

@[simp] theorem joinNatural_nil : U.joinNatural [] = [] := rfl

/-- The joined text is empty exactly when every character of every word is whitespace. -/
theorem joinNatural_eq_nil_iff {words : List Word} :
    U.joinNatural words = [] ↔ ∀ w ∈ words, ∀ c ∈ w.text, U.isSpace c = true := by
  simp only [joinNatural, rstrip, List.rdropWhile_eq_nil_iff, List.mem_flatMap]
  constructor
  · intro h w hw c hc
    exact h c ⟨w, hw, hc⟩
  · rintro h c ⟨w, hw, hc⟩
    exact h w hw c hc

/-- Trimming the front of a trimmed text keeps its last character. -/
theorem Trimmed.lstrip {text : Text} (h : U.Trimmed text) : U.Trimmed (U.lstrip text) := by
  obtain ⟨hne, hlast⟩ := h
  have hdrop : U.lstrip text ≠ [] := by
    intro hnil
    have hall := List.dropWhile_eq_nil_iff.mp hnil
    have htrue := hall _ (List.getLast_mem hne)
    rw [hlast] at htrue
    exact absurd htrue (by simp)
  refine ⟨hdrop, ?_⟩
  have hsuffix : U.lstrip text <:+ text := List.dropWhile_suffix _
  rw [← hsuffix.getLast hdrop] at hlast
  exact hlast

theorem Trimmed.utteranceEdge {text : Text} (h : U.Trimmed text) (first : Bool) :
    U.Trimmed (U.utteranceEdge text first) := by
  cases first with
  | false => exact h
  | true => exact h.lstrip

/-- **A committed text is never empty.** The leading trim of the first emission cannot empty a text
whose last character is no whitespace. -/
theorem utteranceEdge_joinNatural_ne_nil {words : List Word} (h : U.joinNatural words ≠ [])
    (first : Bool) : U.utteranceEdge (U.joinNatural words) first ≠ [] :=
  ((joinNatural_trimmed h).utteranceEdge first).1

/-- The first emission carries no leading whitespace. -/
theorem noLeadingSpace_utteranceEdge_first (text : Text) :
    U.NoLeadingSpace (U.utteranceEdge text true) := by
  intro c rest h
  have hne : U.lstrip text ≠ [] := by
    intro hnil
    rw [utteranceEdge, if_pos rfl, hnil] at h
    exact absurd h (by simp)
  have hhead := List.head_dropWhile_not U.isSpace hne
  simp only [utteranceEdge, if_true, lstrip] at h
  simpa [h] using hhead

end Unicode

end Myna

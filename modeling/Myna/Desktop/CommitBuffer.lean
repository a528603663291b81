import Myna.Orchestrator.Fsm

/-!
# Myna — text on its way into a field (`CommitBuffer` of `myna_desktop::controller`)

Committed text is held back until an event that is not a `Final`, and then inserted with one
`commit`. A space is put between two texts that meet without one; the first text of an utterance is
separated from what the field holds before the cursor.

* **`CommitBuffer.push`**, **`CommitBuffer.flush`** — text comes in, and goes to the target;
* **`continuesAfter`** — whether text needs a space after what the field holds;
* **`Ending`** — why an utterance no longer writes.
-/

namespace Myna

namespace Desktop

/-! ## Characters -/

/-- `char::is_whitespace`: the Unicode property `White_Space`. -/
def isWhitespace (c : Char) : Bool :=
  let n := c.toNat
  (0x09 ≤ n && n ≤ 0x0D) || n == 0x20 || n == 0x85 || n == 0xA0 || n == 0x1680 ||
    (0x2000 ≤ n && n ≤ 0x200A) || n == 0x2028 || n == 0x2029 || n == 0x202F || n == 0x205F ||
    n == 0x3000

def startsWithSpace (text : String) : Bool := text.toList.head?.any isWhitespace

def endsWithSpace (text : String) : Bool := text.toList.getLast?.any isWhitespace

/-- Chinese, Japanese and Thai characters, and the punctuation and full-width forms with them. -/
def writtenWithoutSpaces (c : Char) : Bool :=
  let n := c.toNat
  (0x0E00 ≤ n && n ≤ 0x0E7F) || (0x3000 ≤ n && n ≤ 0x30FF) || (0x3400 ≤ n && n ≤ 0x4DBF) ||
    (0x4E00 ≤ n && n ≤ 0x9FFF) || (0xF900 ≤ n && n ≤ 0xFAFF) || (0xFF00 ≤ n && n ≤ 0xFFEF) ||
    (0x20000 ≤ n && n ≤ 0x2FA1F)

def openingMarks : List Char :=
  ['(', '[', '\x7b', '\u201C', '\u2018', '\u00AB', '\u00BF', '\u00A1']

def closingMarks : List Char := ['.', ',', ';', ':', '!', '?', ')', ']', '\x7d', '\u2026']

/-- Whether `text` dictated after `before` needs a space between them. -/
def continuesAfter (before : Char) (text : String) : Bool :=
  match text.toList.head? with
  | none => false
  | some first =>
    !isWhitespace before && !isWhitespace first && !openingMarks.contains before &&
      !closingMarks.contains first && !writtenWithoutSpaces before && !writtenWithoutSpaces first

/-! ## Endings -/

/-- Why a text input operation failed. -/
inductive InjectError
  | secureField
  | noTarget
  | focusLost
  | unavailable (cause : String)
  | backend (cause : String)
deriving DecidableEq

/-- Focus or target loss on an acquired target. -/
inductive FocusEvent
  | focusOut
  | targetGone
deriving DecidableEq

/-- Why an utterance stopped writing into its target, from the least grave. -/
inductive Ending
  | none
  | focusLost
  | targetGone
deriving DecidableEq

/-- What became of the text of an utterance. -/
inductive Delivery
  | landed
  | focusLost
  | dropped
deriving DecidableEq

namespace Ending

def writesAllowed (ending : Ending) : Bool := ending = .none

def delivery (ending : Ending) (dropped : Bool) : Delivery :=
  match ending, dropped with
  | _, true => .dropped
  | .focusLost, false => .focusLost
  | _, _ => .landed

def rank : Ending → ℕ
  | .none => 0
  | .focusLost => 1
  | .targetGone => 2

/-- `self.max(reason)`. -/
def or (ending reason : Ending) : Ending := if ending.rank ≤ reason.rank then reason else ending

@[simp] theorem or_none (ending : Ending) : ending.or .none = ending := by
  cases ending <;> rfl

theorem or_eq_none {ending reason : Ending} :
    ending.or reason = .none ↔ ending = .none ∧ reason = .none := by
  cases ending <;> cases reason <;> decide

end Ending

/-! ## The buffer -/

/-- What the target says when text is flushed to it. -/
structure Reply where
  charBeforeCursor : Option Char := none
  answer : Except InjectError Unit := .ok ()

/-- Text buffered for one insertion. -/
structure CommitBuffer where
  pending : String := ""
  committedAny : Bool := false
  dropped : Bool := false
deriving DecidableEq

namespace CommitBuffer

/-- Text behind text, with a space between them where neither brings one. -/
def joined (pending text : String) : String :=
  if pending ≠ "" ∧ endsWithSpace pending = false ∧ startsWithSpace text = false then
    pending ++ " " ++ text
  else pending ++ text

def push (b : CommitBuffer) (text : String) : CommitBuffer :=
  { b with pending := joined b.pending text }

@[simp] theorem committedAny_push (b : CommitBuffer) (text : String) :
    (b.push text).committedAny = b.committedAny := rfl

/-- Whether a flush puts a space before the text. -/
def separate (b : CommitBuffer) (before : Option Char) : Bool :=
  if b.committedAny then !startsWithSpace b.pending
  else before.any fun before => continuesAfter before b.pending

/-- The text that a flush hands to the target. -/
def flushed (b : CommitBuffer) (before : Option Char) : String :=
  if b.separate before then " " ++ b.pending else b.pending

/-- The buffer after a flush, the text the target was handed, and the ending it was found at. -/
def flush (b : CommitBuffer) (allowed : Bool) (reply : Reply) :
    CommitBuffer × Option String × Ending :=
  if b.pending = "" then (b, none, .none)
  else if allowed = false then ({ b with pending := "", dropped := true }, none, .none)
  else
    let text := b.flushed reply.charBeforeCursor
    match reply.answer with
    | .ok () => ({ b with pending := "", committedAny := true }, some text, .none)
    | .error .focusLost => ({ b with pending := "", dropped := true }, some text, .focusLost)
    | .error _ => ({ b with pending := "" }, some text, .none)

@[simp] theorem pending_flush (b : CommitBuffer) (allowed : Bool) (reply : Reply) :
    (b.flush allowed reply).1.pending = "" := by
  unfold flush
  split_ifs with hempty
  · exact hempty
  · rfl
  · dsimp only
    split <;> rfl

end CommitBuffer

end Desktop

end Myna

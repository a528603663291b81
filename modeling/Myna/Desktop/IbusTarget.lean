import Myna.Desktop.CommitBuffer
import Myna.Desktop.Lease
import Myna.Lib.Suspend

/-!
# Myna — one utterance's hold on the engine (`IbusTarget` of `myna_desktop::inject::ibus`)

The target writes while its lease is held. What it does is a computation over its own fields and the
engine's state: at an await, what the other tasks of the connection do in between lands, and the
daemon answers. A run is told of these by its `turns`, one for each await, and is left waiting where
there are none.

* **`IbusTarget.commit`**, **`IbusTarget.setPreedit`**, **`IbusTarget.release`** — what a caller
  asks;
* **`IbusTarget.flush`**, **`IbusTarget.write`** — what a blip held, and one text;
* **`Mark`** — what a run leaves behind: texts taken and answered, signals sent, text given up.
-/

namespace Myna

namespace Desktop

namespace Ibus

/-! ## The daemon -/

def PREEDIT_MODE_CLEAR : UInt32 := 0

/-- How a call on the connection fails. -/
inductive CallError
  | inputOutput (cause : String)
  | other (cause : String)
deriving DecidableEq

def classify (member : String) : CallError → InjectError
  | .inputOutput e => .unavailable s!"{member} failed: {e} (IBus connection lost)"
  | .other e => .backend s!"{member} failed: {e}"

/-- The global engine's name, of what the daemon answers when it is asked. -/
def globalEngineOf (answer : Except CallError (Option String)) :
    Except InjectError (Option String) :=
  match answer with
  | .ok name => .ok name
  | .error e =>
    match classify "GetGlobalEngine" e with
    | .backend _ => .ok none
    | err => .error err

/-- A signal of the engine. The preedit's text carries the WHOLE hint where the field takes one. -/
inductive Signal
  | commitText (text : String)
  | updatePreeditText (text : String) (hint : Bool) (cursor : UInt32) (visible : Bool)
    (mode : UInt32)
  | hidePreeditText
deriving DecidableEq

/-- `CommitText` and `UpdatePreeditText`: what puts text into the field. -/
def Signal.isText : Signal → Bool
  | .hidePreeditText => false
  | _ => true

/-! ## Pieces of a commit -/

/-- `c.len_utf16()`. -/
def lenUtf16 (c : Char) : ℕ := if c.toNat < 0x10000 then 1 else 2

/-- `text.encode_utf16().count()`. -/
def units (text : List Char) : ℕ := (text.map lenUtf16).sum

/-- How many characters fit, and how many of them end with the last whitespace, if there is one. -/
def fit (limit : ℕ) : ℕ → ℕ → Option ℕ → List Char → ℕ × Option ℕ
  | _, cut, afterSpace, [] => (cut, afterSpace)
  | used, cut, afterSpace, c :: rest =>
    if limit < used + lenUtf16 c then (cut, afterSpace)
    else
      fit limit (used + lenUtf16 c) (cut + 1)
        (if isWhitespace c then some (cut + 1) else afterSpace)
        rest

/-- The loop of `commit_pieces`; a text of `n` characters has at most `n` pieces before the last. -/
def piecesOf (limit : ℕ) : ℕ → List Char → List (List Char)
  | 0, rest => [rest]
  | n + 1, rest =>
    if limit < units rest then
      let (cut, afterSpace) := fit limit 0 0 none rest
      let cut := afterSpace.getD cut
      rest.take cut :: piecesOf limit n (rest.drop cut)
    else [rest]

/-- Pieces of at most `limit` UTF-16 units, each ending after its last whitespace when it has
one. -/
def commitPieces (text : String) (limit : ℕ) : List String :=
  (piecesOf limit text.length text.toList).map String.ofList

theorem flatten_piecesOf (limit n : ℕ) (text : List Char) :
    (piecesOf limit n text).flatten = text := by
  induction n generalizing text with
  | zero => simp [piecesOf]
  | succ n ih =>
    unfold piecesOf
    split
    · dsimp only
      rw [List.flatten_cons, ih, List.take_append_drop]
    · simp

/-- No character of a text is lost between its pieces. -/
theorem join_commitPieces (text : String) (limit : ℕ) :
    String.join (commitPieces text limit) = text := by
  rw [← String.toList_inj, String.toList_join]
  unfold commitPieces
  rw [List.flatMap_map]
  simp [flatten_piecesOf]

/-! ## What happens while the target waits -/

/-- What another task of the connection does to the engine's state. -/
inductive Landing
  | focus (change : FocusChange)
  | contentType (value : ContentType)
  | surrounding (beforeCursor : Option Char)
  | expire (blip : ℕ) (evenActivated : Bool)
  | tick (elapsed : ℕ)
  | activated (id : ℕ)
  | activatedCurrent
  | mint
  | unfocus (id : ℕ)
  | retire (id : ℕ)
  | taken (id : ℕ)
  | displace (current : Option String)
  | reclaim (retired : Retired)
deriving DecidableEq

def EngineState.land (s : EngineState) : Landing → EngineState
  | .focus change => s.focus change
  | .contentType value => { s with contentType := value }
  | .surrounding beforeCursor => s.surrounding beforeCursor
  | .expire blip evenActivated => s.expire blip evenActivated
  | .tick elapsed => { s with now := s.now + elapsed }
  | .activated id => s.activated id
  | .activatedCurrent => s.activatedCurrent
  | .mint => s.mint.2
  | .unfocus id => s.unfocus id
  | .retire id => (s.retire id).2
  | .taken id => s.taken id
  | .displace current => s.displace current
  | .reclaim retired => (s.reclaim retired).2

def EngineState.lands (s : EngineState) (landings : List Landing) : EngineState :=
  landings.foldl EngineState.land s

/-- One await: what lands while it lasts, and what the daemon answers. -/
structure Turn where
  landings : List Landing := []
  engine : Except CallError (Option String) := .ok (some ENGINE_NAME)
  sent : Except CallError Unit := .ok ()
deriving DecidableEq

/-! ## Runs -/

structure IbusTarget where
  lease : ℕ
  preeditActive : Bool := false
  held : List String := []
  heldPreedit : Option String := none
deriving DecidableEq

/-- A signal as it was sent, with the engine's state at that moment. -/
structure Sent where
  signal : Signal
  state : EngineState
  -- an await lies between the answer of the lease's standing and this
  awaited : Bool
  -- it is a later piece of a split commit
  later : Bool
  -- its text is one that a blip held
  flushing : Bool
  result : Except CallError Unit
deriving DecidableEq

/-- What a run leaves behind. -/
inductive Mark
  | called (text : String)
  | answered (text : String) (answer : Except InjectError Unit)
  -- a text is about to be written, its preedit hidden
  | checked (text : String) (state : EngineState) (flushing : Bool)
  | sent (signal : Sent)
  -- text that a blip held is given up
  | cleared (texts : List String)
  | retired (found : Retired)
  | restored (engine : String)
deriving DecidableEq

structure Run where
  state : EngineState
  target : IbusTarget
  turns : List Turn := []
  -- what a flush under way has taken, from the text it is writing on
  flushing : List String := []
  -- an await has begun since the lease's standing was asked last
  awaited : Bool := true
  marks : List Mark := []

/-- What the target's code computes. -/
abbrev Task (α : Type) : Type := Suspend Run α

open Suspend (get modify)

def note (mark : Mark) : Task Unit := modify fun r => { r with marks := r.marks ++ [mark] }

/-- Suspends until the next turn. -/
def await : Task Turn := fun r =>
  match r.turns with
  | [] => (none, { r with awaited := true })
  | turn :: turns =>
    (some turn, { r with turns, awaited := true, state := r.state.lands turn.landings })

/-- `wait_for` on the lease: the state is looked at, and again after each turn. -/
def waitFor {α : Type} (ready : EngineState → Option α) :
    EngineState → List Turn → Option α × EngineState × List Turn
  | state, [] => (ready state, state, [])
  | state, turn :: turns =>
    match ready state with
    | some a => (some a, state, turn :: turns)
    | none => waitFor ready (state.lands turn.landings) turns

/-- What is waited for holds where the wait ends. -/
theorem waitFor_ready {α : Type} {ready : EngineState → Option α} {state state' : EngineState}
    {turns turns' : List Turn} {a : α} (h : waitFor ready state turns = (some a, state', turns')) :
    ready state' = some a := by
  induction turns generalizing state with
  | nil =>
    obtain ⟨hready, rfl, -⟩ : ready state = some a ∧ state = state' ∧ [] = turns' := by
      simpa [waitFor] using h
    exact hready
  | cons turn turns ih =>
    unfold waitFor at h
    split at h
    · rename_i b hb
      obtain ⟨rfl, rfl, rfl⟩ : b = a ∧ state = state' ∧ turn :: turns = turns' := by simpa using h
      exact hb
    · exact ih h

/-- What `EngineState::standing` waits for. -/
def EngineState.settled (s : EngineState) (id : ℕ) (sure : Bool) : Option Standing :=
  match s.lease.standing id with
  | some .unsure => if sure then none else some .unsure
  | standing => standing

namespace EngineState

variable {s : EngineState} {id : ℕ}

theorem standing_held (h : s.lease.standing id = some .held) :
    s.holds id = true ∧ s.lease.away = none := by
  unfold Lease.standing at h
  unfold holds Lease.away
  cases hheld : s.lease.heldBy id with
  | false => simp [hheld] at h
  | true =>
    cases hb : s.lease.binding <;> simp_all
    grind

theorem standing_lost (h : s.lease.standing id = some .lost) : s.holds id = false := by
  unfold Lease.standing at h
  cases hheld : s.lease.heldBy id with
  | false => exact hheld
  | true =>
    cases hb : s.lease.binding <;> simp_all
    grind

end EngineState

theorem EngineState.standing_of_settled {s : EngineState} {id : ℕ} {sure : Bool}
    {standing : Standing} (h : s.settled id sure = some standing) :
    s.lease.standing id = some standing := by
  unfold EngineState.settled at h
  split at h
  case h_1 hunsure =>
    cases sure with
    | true => simp at h
    | false => exact hunsure.trans h
  case h_2 => exact h

namespace IbusTarget

def modifyTarget (f : IbusTarget → IbusTarget) : Task Unit :=
  modify fun r => { r with target := f r.target }

def modifyState (f : EngineState → EngineState) : Task Unit :=
  modify fun r => { r with state := f r.state }

/-- Waits out a blip that came with an activation; with `sure`, any blip. -/
def stateStanding (sure : Bool) : Task Standing := fun r =>
  match waitFor (fun s => s.settled r.target.lease sure) r.state r.turns with
  | (some standing, state, turns) => (some standing, { r with state, turns, awaited := false })
  | (none, state, turns) => (none, { r with state, turns })

/-- One signal, of which `later` only says that pieces of the same commit went before it. -/
def emit (signal : Signal) (later : Bool) : Task (Except CallError Unit) := do
  let r ← get
  let turn ← await
  note (.sent {
    signal, state := r.state, awaited := r.awaited, later, flushing := !r.flushing.isEmpty,
    result := turn.sent })
  return turn.sent

/-- `HidePreeditText`, if a preedit is up and still ours. -/
def hidePreedit : Task Unit := do
  let r ← get
  modifyTarget fun t => { t with preeditActive := false }
  if r.target.preeditActive && r.state.holds r.target.lease then
    let _ ← emit .hidePreeditText false

/-- Nothing of what a blip held is to be written any more. -/
def clear : Task Unit := do
  let r ← get
  note (.cleared r.target.held)
  modifyTarget fun t => { t with held := [], heldPreedit := none }

/-- Whether another engine took the global one from us, which ends the lease. -/
def taken : Task (Except InjectError Bool) := do
  let turn ← await
  match globalEngineOf turn.engine with
  | .error err => return .error err
  | .ok (some name) =>
    if name ≠ ENGINE_NAME then
      let r ← get
      modifyState (·.taken r.target.lease)
      clear
      return .ok true
    else return .ok false
  | .ok none => return .ok false

/-- Where the target stands for a write, holding `held` while that is unsure. -/
def standing (held : String) (preedit : Bool) : Task Standing := do
  let standing ← stateStanding false
  match standing with
  | .unsure =>
    modifyTarget fun t =>
      if preedit then { t with heldPreedit := some held }
      else { t with held := t.held ++ [held], heldPreedit := none }
    return .unsure
  | .lost =>
    clear
    return .lost
  | .held => return .held

/-- The loop of `write` over its pieces, `later` from the second one on. -/
def emitPieces : List String → Bool → Task (Except InjectError Unit)
  | [], _ => return .ok ()
  | piece :: pieces, later => do
    let sent ← emit (.commitText piece) later
    match sent with
    | .error e => return .error (classify "CommitText" e)
    | .ok () => emitPieces pieces true

def write (text : String) : Task (Except InjectError Unit) := do
  hidePreedit
  let r ← get
  note (.checked text r.state !r.flushing.isEmpty)
  if !r.state.holds r.target.lease then return .error .focusLost
  else if text.isEmpty then return .ok ()
  else if r.state.contentType.isSecure then return .error .secureField
  else
    modifyState (·.wrote r.target.lease)
    emitPieces (match r.state.commitLimit with
      | some limit => commitPieces text limit
      | none => [text]) false

def showPreedit (text : String) : Task Unit := do
  let r ← get
  if !r.state.holds r.target.lease then return
  else if r.state.contentType.isSecure then return
  else if text.isEmpty then hidePreedit
  else
    modifyState (·.wrote r.target.lease)
    let sent ← emit (.updatePreeditText text r.state.preeditHint (UInt32.ofNat text.length) true
      PREEDIT_MODE_CLEAR) false
    match sent with
    | .ok () => modifyTarget fun t => { t with preeditActive := true }
    | .error _ => return

/-- The loop of `flush` over the texts that a blip held. -/
def flushTexts : List String → Task (Except InjectError Unit)
  | [] => return .ok ()
  | text :: texts => do
    modify fun r => { r with flushing := text :: texts }
    let written ← write text
    modify fun r => { r with flushing := [] }
    match written with
    | .error err => return .error err
    | .ok () => flushTexts texts

/-- Write what a blip held, now that focus is back. -/
def flush : Task (Except InjectError Unit) := do
  let r ← get
  modifyTarget fun t => { t with held := [] }
  let flushed ← flushTexts r.target.held
  match flushed with
  | .error err => return .error err
  | .ok () =>
    let r ← get
    modifyTarget fun t => { t with heldPreedit := none }
    match r.target.heldPreedit with
    | some text =>
      showPreedit text
      return .ok ()
    | none => return .ok ()

/-! ## What a caller asks -/

def commitAsked (text : String) : Task (Except InjectError Unit) := do
  match ← taken with
  | .error err => return .error err
  | .ok true => return .error .focusLost
  | .ok false =>
    match ← standing text false with
    | .unsure => return .ok ()
    | .lost => return .error .focusLost
    | .held =>
      match ← flush with
      | .error err => return .error err
      | .ok () => write text

/-- `commit`, with its text and what it answers marked. -/
def commit (text : String) : Task (Except InjectError Unit) := do
  note (.called text)
  let answer ← commitAsked text
  note (.answered text answer)
  return answer

def setPreedit (text : String) : Task Unit := do
  match ← standing text true with
  | .unsure | .lost => return
  | .held =>
    match ← flush with
    | .ok () => showPreedit text
    | .error _ => return

def activated : Task Unit := do
  let r ← get
  modifyState (·.activated r.target.lease)

/-- A blip under way decides whether what it held lands. -/
def settle : Task Unit := do
  match ← stateStanding true with
  | .held =>
    let _ ← flush
  | .unsure | .lost => return

/-- Retired first: the restore focuses our engine out. -/
def retire : Task Retired := do
  let r ← get
  let retired := (r.state.retire r.target.lease).1
  modifyState fun s => (s.retire r.target.lease).2
  note (.retired retired)
  modifyTarget fun t => { t with preeditActive := false }
  if r.target.preeditActive && retired = .held then
    let _ ← emit .hidePreeditText false
    return retired
  else return retired

/-- Clears the preedit and restores what the engine switch displaced, unless superseded. -/
def release : Task Unit := do
  let _ ← taken
  settle
  let retired ← retire
  let r ← get
  modifyState fun s => (s.reclaim retired).2
  match (r.state.reclaim retired).1 with
  | some displaced =>
    let _ ← await
    note (.restored displaced)
  | none => return

end IbusTarget

/-! ## A target's life -/

/-- What a caller asks of a target before it gives it up, and what happens in between. -/
inductive Call
  | commit (text : String)
  | setPreedit (text : String)
  | activated
  | lands (landing : Landing)
deriving DecidableEq

def Call.run : Call → Task Unit
  | .commit text => do
    let _ ← IbusTarget.commit text
  | .setPreedit text => IbusTarget.setPreedit text
  | .activated => IbusTarget.activated
  | .lands landing => modify fun r => { r with state := r.state.land landing }

/-- One call after another. -/
def runCalls : List Call → Task Unit
  | [] => pure ()
  | call :: calls => do
    call.run
    runCalls calls

/-- All that is asked of a target, which a release consumes. -/
def life (calls : List Call) (released : Bool) : Task Unit := do
  runCalls calls
  if released then IbusTarget.release else return

/-- An acquire's target: its lease is minted, and what lands until it is handed over has landed. -/
def acquired (before : EngineState) (landings : List Landing) (turns : List Turn) : Run where
  state := before.mint.2.lands landings
  target := { lease := before.mint.1 }
  turns

end Ibus

end Desktop

end Myna

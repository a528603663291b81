import Mathlib.Data.Rat.Floor

/-!
# Myna — the pill and its window (`myna_hud::states`, `notice_slot`, `pill`, `window`)

The publisher's states become descriptors, which the window applies to its pill and then maps or
unmaps itself for. The pill keeps a notice that idle comes for before its hold has expired, and arms
a timer to go idle then; the window fades out on a timer of its own. Times are in milliseconds.

* **`World.applyDescriptor`** — a descriptor is applied to the window;
* **`World.fired`** — a timer fires;
* **`World.step`** — either of these, or time passes.
-/

namespace Myna

namespace Hud

/-! ## States -/

/-- A recoverable notice goes by itself, a critical error stays. -/
inductive Severity
  | recoverable
  | critical
deriving DecidableEq

inductive DictationState
  | idle
  | loading
  | recording
  | transcribing
  | finalizing
  | notice
  | error
  | active
deriving DecidableEq

structure Descriptor where
  key : DictationState
  statusText : String
  severity : Option Severity
  hidden : Bool
deriving DecidableEq

def hidden : Descriptor where
  key := .idle
  statusText := ""
  severity := none
  hidden := true

/-- An unknown value falls through to `active`. -/
def baseFor : String → DictationState × Option Severity
  | "loading" => (.loading, none)
  | "recording" => (.recording, none)
  | "transcribing" => (.transcribing, none)
  | "finalizing" => (.finalizing, none)
  | "notice" => (.notice, some .recoverable)
  | "error" => (.error, some .critical)
  | _ => (.active, none)

def stateToDescriptor (state : Option String) (statusMessage : String) : Descriptor :=
  match state with
  | none => hidden
  | some state =>
    if state = "idle" then hidden
    else
      let (key, severity) := baseFor state
      { key, statusText := statusMessage, severity, hidden := false }

/-! ## The notice slot -/

def holdMsFor (reason : String) : ℚ :=
  let perCharMs := 60
  let minMs := 8000
  let maxMs := 15000
  min (max (reason.length * perCharMs) minMs) maxMs

structure NoticeSlot where
  severity : Option Severity := none
  /-- `none` is never. -/
  expiresAt : Option ℚ := none
deriving DecidableEq

namespace NoticeSlot

def clear (_ : NoticeSlot) : NoticeSlot := {}

def hold (slot : NoticeSlot) (severity : Option Severity) (reason : String) (nowMs : ℚ) :
    NoticeSlot :=
  match severity with
  | none => slot.clear
  | some .recoverable =>
    { severity := some .recoverable, expiresAt := some (nowMs + holdMsFor reason) }
  | some .critical => { severity := some .critical, expiresAt := none }

def isShowing (slot : NoticeSlot) (nowMs : ℚ) : Bool :=
  match slot.severity, slot.expiresAt with
  | none, _ => false
  | some _, none => true
  | some _, some expiry => nowMs ≤ expiry

end NoticeSlot

/-! ## Timers -/

inductive TimerKind
  /-- The pill goes idle, if it still holds the notice that expires then. -/
  | goIdle (expiresAt : ℚ)
  /-- The end of the fade that the pill itself begins. -/
  | pillFade
  /-- The end of the window's fade. -/
  | fade
  /-- The window is mapped, once GDK has sized its surface. -/
  | map
  /-- The frame after the window was mapped. -/
  | reveal
deriving DecidableEq

structure Timer where
  kind : TimerKind
  due : ℚ
deriving DecidableEq

def fadeMs : ℚ := 100

/-- The pill (`descriptor` and `notice`) and its window. `last` is the descriptor that was applied
to the window last, `live` the last of these that was not hidden, and `since` when the pill was
given that. -/
structure World where
  now : ℚ := 0
  descriptor : Descriptor := hidden
  notice : NoticeSlot := {}
  /-- The pill has `FADE_HIDDEN_CLASS`. -/
  faded : Bool := false
  visible : Bool := false
  pendingHidden : Bool := false
  timers : List Timer := []
  last : Option Descriptor := none
  live : Option Descriptor := none
  since : ℚ := 0

/-- What happens next: the publisher's state is applied, a new `HudStyle` has the pill apply its
descriptor again, time passes, or a timer fires, whose callback takes `elapsed`. -/
inductive Event
  | apply (state : Option String) (statusMessage : String)
  | restyle
  | tick (ms : ℚ)
  | fire (timer : ℕ) (elapsed : ℚ)
deriving DecidableEq

namespace World

def arm (w : World) (kind : TimerKind) (ms : ℚ) : World :=
  { w with timers := w.timers ++ [⟨kind, w.now + ms⟩] }

/-- `DictationPill::apply_descriptor`. -/
def pillApply (w : World) (descriptor : Descriptor) : World :=
  if descriptor.hidden && w.notice.isShowing w.now then
    match w.notice.expiresAt with
    | some expiresAt =>
      let remaining := ⌊max (expiresAt - w.now) 0⌋₊
      w.arm (.goIdle expiresAt) remaining
    | none => w
  else
    { w with
      notice :=
        if descriptor.severity.isSome then
          w.notice.hold descriptor.severity descriptor.statusText w.now
        else w.notice.clear
      descriptor }

def mapFaded (w : World) : World := { w with faded := true, visible := true }.arm .reveal 0

section

variable (host : Bool)

def setHiddenFaded (w : World) (isHidden : Bool) : World :=
  let w := { w with pendingHidden := isHidden }
  if isHidden then
    if !w.visible then w
    else { w with faded := true }.arm .fade fadeMs
  else if w.visible then { w with faded := false }
  else if host then w.arm .map 0
  else w.mapFaded

/-- `HudWindow::apply_descriptor`. -/
def applyDescriptor (w : World) (descriptor : Descriptor) : World :=
  let w := { w with
    last := some descriptor
    live := if descriptor.hidden then w.live else some descriptor
    since := if descriptor.hidden then w.since else w.now }
  (w.pillApply descriptor).setHiddenFaded host descriptor.hidden

/-- `DictationPill::set_hud_style`, where the style is another one. -/
def restyle (w : World) : World :=
  let w := { w with since := if w.descriptor.hidden then w.since else w.now }
  w.pillApply w.descriptor

/-- A timer fires, and is no longer armed; the pill's own reads the clock twice. -/
def fired (w : World) (kind : TimerKind) (elapsed : ℚ) : World :=
  let later := { w with now := w.now + elapsed }
  match kind with
  | .goIdle expiresAt =>
    let still := w.notice.expiresAt = some expiresAt ∧ w.notice.isShowing w.now
    if still then { later.pillApply (stateToDescriptor none "") with faded := true }.arm
      .pillFade fadeMs
    else later
  | .pillFade => { later with visible := false }
  | .fade => if w.pendingHidden then { later with visible := false } else later
  | .map => if !w.pendingHidden && !w.visible then later.mapFaded else later
  | .reveal => { later with faded := false }

/-- A timer fires at its due time or after it. -/
def step (w : World) : Event → Option World
  | .apply state statusMessage =>
    some (w.applyDescriptor host (stateToDescriptor state statusMessage))
  | .restyle => some w.restyle
  | .tick ms => if 0 ≤ ms then some { w with now := w.now + ms } else none
  | .fire i elapsed =>
    match w.timers[i]? with
    | some timer =>
      if timer.due ≤ w.now ∧ 0 ≤ elapsed then
        some ({ w with timers := w.timers.eraseIdx i }.fired timer.kind elapsed)
      else none
    | none => none

/-- A run, each of whose steps is one that `may` allows. -/
def run (may : World → Event → Bool) (w : World) (events : List Event) : Option World :=
  events.foldlM (fun w e => if may w e then w.step host e else none) w

end

/-- The window is mapped, or is about to be. -/
def mapped (w : World) : Prop := w.visible ∨ ∃ timer ∈ w.timers, timer.kind = .map

/-- The hold of `descriptor`, which the pill was given last, has not expired. -/
def holding (w : World) (descriptor : Descriptor) : Prop :=
  descriptor.severity = some .recoverable ∧ w.now ≤ w.since + holdMsFor descriptor.statusText

end World

/-! ## What the window owes to the publisher -/

/-- A held notice is shown for its hold and then goes. -/
structure Right (w : World) : Prop where
  /-- Until its hold expires, a notice that nothing has replaced stays, even when idle comes. -/
  held : ∀ d, w.live = some d → w.holding d → w.descriptor = d ∧ w.mapped
  /-- No timer hides a state. -/
  shows : ∀ d, w.last = some d → d.hidden = false → w.descriptor = d ∧ w.mapped
  /-- A critical error, or a live state, goes when the next state is applied. -/
  replaced : ∀ d next, w.live = some d → d.severity ≠ some .recoverable → w.last = some next →
    w.descriptor = next
  /-- Once idle has been applied and every timer has fired, nothing is shown but a notice whose
  hold has not expired. -/
  gone : ∀ d, w.last = some d → d.hidden → (∀ live, w.live = some live → ¬w.holding live) →
    w.timers = [] → w.descriptor = hidden ∧ w.visible = false

/-- Idle is not applied while the pill holds a notice or an error. -/
def meets (w : World) : Event → Bool
  | .apply state statusMessage =>
    !((stateToDescriptor state statusMessage).hidden && w.notice.isShowing w.now)
  | _ => true

def Event.isTimer : Event → Bool
  | .tick _ | .fire _ _ => true
  | _ => false

end Hud

end Myna

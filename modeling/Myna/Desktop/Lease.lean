import Mathlib.Data.Nat.Notation

/-!
# Myna — the lease of a field (`myna_desktop::inject::ibus`)

The daemon tells the engine where focus is; a lease is one utterance's right to write, as these
calls shape it. A FocusOut may be a blip, which an activation explains: a task of the runtime waits
for the activation and then for focus to come back, and ends the lease if they do not come. Times
are nanoseconds; `graces` are the tasks that wait.
-/

namespace Myna

namespace Desktop

namespace Ibus

def ENGINE_NAME : String := "myna-stt"

def FAKE_CLIENT : String := "fake"

def SHELL_CLIENT : String := "gnome-shell"

def XIM_CLIENT : String := "xim"

def XIM_COMMIT_UNITS : ℕ := 255

def ACTIVATION_WINDOW : ℕ := 500000000

def FOCUS_BLIP_GRACE : ℕ := 1000000000

/-! ## Content types -/

def PURPOSE_PASSWORD : UInt32 := 8

def PURPOSE_PIN : UInt32 := 9

def HINT_HIDDEN_TEXT : UInt32 := (1 : UInt32) <<< 12

structure ContentType where
  purpose : UInt32 := 0
  hints : UInt32 := 0
deriving DecidableEq

def ContentType.isSecure (c : ContentType) : Bool :=
  c.purpose = PURPOSE_PASSWORD || c.purpose = PURPOSE_PIN || c.hints &&& HINT_HIDDEN_TEXT ≠ 0

/-! ## Focus -/

/-- The input context an identified focus call names. -/
structure Context where
  path : String
  client : String
deriving DecidableEq

/-- The daemon's own placeholder. -/
def Context.isFake (ctx : Context) : Bool := ctx.client = FAKE_CLIENT

inductive FocusChange
  | focusIn (ctx : Option Context)
  | focusOut (path : Option String)
deriving DecidableEq

inductive Binding
  | pending
  | unnamed
  | left (blip : ℕ)
  | context (path : String)
  | away (path : String) (blip : ℕ) (activated back : Bool)
  | unfocused
  | lost
deriving DecidableEq

/-- `matches!(binding, Binding::Left { .. })`. -/
def Binding.isLeft : Binding → Bool
  | .left _ => true
  | _ => false

/-- `matches!(binding, Binding::Away { activated: false, .. })`. -/
def Binding.unexplained : Binding → Bool
  | .away _ _ activated _ => !activated
  | _ => false

/-- What ending a lease found. -/
inductive Retired
  | held
  | lost
  | superseded
deriving DecidableEq

def Retired.restores (r : Retired) : Bool := r ≠ .superseded

inductive Standing
  | held
  | unsure
  | lost
deriving DecidableEq

structure Lease where
  id : ℕ
  binding : Binding
  beforeCursor : Option Char := none
  activatedAt : Option ℕ := none
  onFake : Bool := false
  wrote : Bool := false
  fieldless : Bool := false
deriving DecidableEq

namespace Lease

def heldBy (lease : Lease) (id : ℕ) : Bool := lease.id = id && lease.binding ≠ .lost

/-- One focus call, by where the lease stands. -/
def focus (lease : Lease) (now : ℕ) (change : FocusChange) (blip : ℕ) : Lease :=
  let recent := lease.activatedAt.any fun t => now - t ≤ ACTIVATION_WINDOW
  match lease.binding, change with
  | .pending, .focusOut _ => { lease with onFake := false }
  | .pending, .focusIn none => { lease with binding := .unnamed }
  | .pending, .focusIn (some ctx) =>
    if ctx.isFake then { lease with onFake := true }
    else { lease with binding := .context ctx.path }
  | .unnamed, .focusOut path =>
    if !lease.wrote then { lease with binding := .left blip }
    else
      match path with
      -- written to, so a field: named now, it leaves as a named one does
      | some path => { lease with binding := .away path blip recent false }
      | none => { lease with binding := .lost }
  | .unnamed, .focusIn (some ctx) =>
    if ctx.isFake then
      if !lease.wrote then { lease with binding := .left blip }
      else { lease with binding := .lost }
    else { lease with binding := .context ctx.path }
  | .left _, .focusOut _ => lease
  | .left _, .focusIn none => { lease with binding := .unnamed }
  | .left _, .focusIn (some ctx) =>
    if ctx.isFake then lease else { lease with binding := .context ctx.path }
  | .context path, .focusIn (some ctx) =>
    if path = ctx.path then lease else { lease with binding := .lost }
  | .context path, .focusOut _ => { lease with binding := .away path blip recent false }
  | .away path b activated _, .focusOut _ =>
    { lease with binding := .away path b activated false }
  | .away path b activated _, .focusIn (some ctx) =>
    if ctx.isFake then lease
    else if path = ctx.path then
      if !activated then { lease with binding := .away path b activated true }
      else { lease with binding := .context path }
    else { lease with binding := .lost }
  | _, _ => { lease with binding := .lost }

def activated (lease : Lease) (now : ℕ) : Lease :=
  let lease := { lease with activatedAt := some now }
  match lease.binding with
  | .away path b _ back =>
    if back then { lease with binding := .context path }
    else { lease with binding := .away path b true back }
  | _ => lease

/-- The blip this lease is away in. -/
def away (lease : Lease) : Option ℕ :=
  match lease.binding with
  | .away _ blip _ _ | .left blip => some blip
  | _ => none

/-- Where lease `id` stands; `none` is a blip that a write waits out. -/
def standing (lease : Lease) (id : ℕ) : Option Standing :=
  if !lease.heldBy id then some .lost
  else
    match lease.binding with
    | .away _ _ false _ | .left _ => some .unsure
    | .away .. => none
    | _ => some .held

end Lease

/-! ## The engine's state -/

/-- A task that ends the lease if focus does not come back. -/
structure Grace where
  blip : ℕ
  since : ℕ
  wake : ℕ
  windowOver : Bool := false
deriving DecidableEq

structure EngineState where
  contentType : ContentType := {}
  lease : Lease := { id := 0, binding := .lost }
  nextLease : ℕ := 1
  nextBlip : ℕ := 1
  -- whether there is a runtime to spawn a task on
  runtime : Bool := true
  displaced : Option String := none
  shellFocused : Bool := false
  ximFocused : Bool := false
  now : ℕ := 0
  graces : List Grace := []
deriving DecidableEq

namespace EngineState

def mint (s : EngineState) : ℕ × EngineState :=
  (s.nextLease,
    { s with nextLease := s.nextLease + 1, lease := { id := s.nextLease, binding := .pending } })

def holds (s : EngineState) (id : ℕ) : Bool := s.lease.heldBy id

/-- End the lease if it is still away in `blip`, and, short of the grace, `evenActivated`. -/
def expire (s : EngineState) (blip : ℕ) (evenActivated : Bool) : EngineState :=
  if s.lease.away = some blip ∧ (evenActivated || s.lease.binding.unexplained) then
    { s with lease := { s.lease with fieldless := s.lease.binding.isLeft, binding := .lost } }
  else s

def blipDeadline (s : EngineState) (blip since : ℕ) : Option ℕ :=
  if s.lease.away = some blip then
    some (max (s.lease.activatedAt.getD since) since + FOCUS_BLIP_GRACE)
  else none

/-- The flags follow the field that was last focused by name. -/
def noteClient (s : EngineState) : FocusChange → EngineState
  | .focusIn (some ctx) =>
    if !ctx.isFake then
      { s with shellFocused := ctx.client = SHELL_CLIENT, ximFocused := ctx.client = XIM_CLIENT }
    else s
  | _ => s

def focus (s : EngineState) (change : FocusChange) : EngineState :=
  let s := s.noteClient change
  let blip := s.nextBlip
  let s := { s with nextBlip := blip + 1, lease := s.lease.focus s.now change blip }
  if s.lease.away = some blip then
    if s.runtime then
      { s with graces := s.graces ++ [⟨blip, s.now, s.now + ACTIVATION_WINDOW, false⟩] }
    else s.expire blip true
  else s

/-- The task of a blip wakes: it ends the lease, or sleeps on, or is done. -/
def wake (s : EngineState) (g : Grace) : EngineState :=
  let s := { s with graces := s.graces.erase g }
  let s := if g.windowOver then s else s.expire g.blip false
  match s.blipDeadline g.blip g.since with
  | none => s
  | some deadline =>
    if deadline ≤ s.now then s.expire g.blip true
    else { s with graces := s.graces ++ [{ g with wake := deadline, windowOver := true }] }

def wrote (s : EngineState) (id : ℕ) : EngineState :=
  if s.lease.heldBy id then { s with lease := { s.lease with wrote := true } } else s

def activatedCurrent (s : EngineState) : EngineState :=
  if s.lease.binding ≠ .lost then { s with lease := s.lease.activated s.now } else s

def activated (s : EngineState) (id : ℕ) : EngineState :=
  if s.lease.heldBy id then { s with lease := s.lease.activated s.now } else s

def surrounding (s : EngineState) (beforeCursor : Option Char) : EngineState :=
  match s.lease.binding with
  | .unnamed | .context _ => { s with lease := { s.lease with beforeCursor } }
  | _ => s

/-- End lease `id`, saying what ending it found. -/
def retire (s : EngineState) (id : ℕ) : Retired × EngineState :=
  if s.lease.id ≠ id then (.superseded, s)
  else
    (if s.lease.binding ≠ .lost then .held else .lost,
      { s with lease := { s.lease with binding := .lost } })

/-- Another engine is global while lease `id` writes. -/
def taken (s : EngineState) (id : ℕ) : EngineState :=
  let s := if s.lease.heldBy id then { s with lease := { s.lease with binding := .lost } } else s
  { s with displaced := none }

/-- Record the engine an activation displaces. -/
def displace (s : EngineState) (current : Option String) : EngineState :=
  match current with
  | some name =>
    if !name.isEmpty && name ≠ ENGINE_NAME then { s with displaced := some name } else s
  | none => s

/-- The engine a retiring target hands back, consuming the responsibility. -/
def reclaim (s : EngineState) (retired : Retired) : Option String × EngineState :=
  if !retired.restores then (none, s) else (s.displaced, { s with displaced := none })

/-- Where `focus_arrived` gives up waiting: a lease that no focus came for. -/
def unfocus (s : EngineState) (id : ℕ) : EngineState :=
  if s.lease.id = id ∧ s.lease.binding = .pending then
    { s with lease := { s.lease with binding := .unfocused } }
  else s

/-- Whether lease `id` never got past the daemon's fake context. -/
def onFake (s : EngineState) (id : ℕ) : Bool :=
  s.lease.id = id &&
    match s.lease.binding with
    | .pending | .unfocused => s.lease.onFake
    | .lost => s.lease.fieldless
    | _ => false

def preeditHint (s : EngineState) : Bool := !s.shellFocused

def commitLimit (s : EngineState) : Option ℕ :=
  if s.ximFocused then some XIM_COMMIT_UNITS else none

end EngineState

end Ibus

end Desktop

end Myna

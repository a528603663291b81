import Myna.Desktop.IbusTarget
import Myna.Lib.Dict

/-!
# Myna — the engine an acquire displaces (`IbusInjector` of `myna_desktop::inject::ibus`)

An acquire makes our engine the daemon's global one, and records the engine that this displaces; the
release of the last target hands it back. An `Injector` is one connection with the daemon at its
other end: the acquire under way, of which there is one at a time, and the targets it has handed
out, each of which is waiting for its caller, or for the daemon. A call is three steps: it is sent,
the daemon handles it, and what it answered is acted on; anything may happen in between.

* **`Injector.acquireActs`** — the acquire goes on;
* **`Injector.goes`** — a target goes on;
* **`Injector.step`** — either of these, or the daemon, or another party does something.
-/

namespace Myna

namespace Desktop

namespace Ibus

/-! ## Claiming back -/

/-- How many times an acquire makes our engine global. -/
def SWITCHES : ℕ := 2

/-- How an acquire's switch to our engine went. -/
inductive Switched
  | answered
  | failed (before : Option String)

/-- Whether an acquire switches again, its `switch`th switch having left `now` global. -/
def reclaims (switch : ℕ) (switched : Switched) (now : Option String) : Bool :=
  match now with
  | none => false
  | some name =>
    !name.isEmpty && name ≠ ENGINE_NAME && switch < SWITCHES &&
      match switched with
      | .answered => true
      | .failed before => before ≠ some name

/-- `global_engine_name`: what the daemon does not answer counts as no name. -/
def globalEngineName (answer : Except CallError (Option String)) : Option String :=
  match globalEngineOf answer with
  | .ok name => name
  | .error _ => none

/-! ## What is under way -/

/-- An acquire's loop: the engine before the press, the one its next switch displaces, and which
switch that is. `asked` is how many switches the daemon had made when it named the second. -/
structure Switching where
  before : Option String
  displaced : Option String
  switch : ℕ
  asked : Option ℕ
deriving DecidableEq

/-- Where an acquire is. -/
inductive AcquirePc
  | reading
  | registering (before : Option String) (asked : Option ℕ)
  -- about to mint its lease
  | switching (a : Switching)
  -- the daemon has not made our engine global yet, and then it has, or has failed to
  | minted (a : Switching) (lease : ℕ)
  | answered (a : Switching) (lease : ℕ) (result : Except CallError Unit)
  -- `switched_since`
  | polling (a : Switching) (err : InjectError)
  | focusing (a : Switching) (lease : ℕ)
  | checking (a : Switching) (lease : ℕ)
  | checked (a : Switching) (lease : ℕ) (answer : Except CallError (Option String)) (asked : ℕ)
  | settling (lease : ℕ)
  -- its target is being released
  | releasing (lease : ℕ) (err : InjectError)
deriving DecidableEq

/-- What the daemon told a target of the global engine, when it had made so many switches: that it
is ours, or another; or nothing. -/
inductive Named
  | ours (asked : ℕ)
  | other (asked : ℕ)
  | nothing
deriving DecidableEq

/-- When the daemon told of an engine. -/
def Named.asked : Named → Option ℕ
  | .ours asked => some asked
  | .other asked => some asked
  | .nothing => none

def Named.isOther : Named → Bool
  | .other _ => true
  | _ => false

/-- Where a target is: a commit and a release first ask which engine is global. -/
inductive TargetPc
  | idle
  | asking (release : Bool)
  | told (release : Bool) (answer : Except CallError (Option String)) (asked : ℕ)
  -- a blip under way decides whether what it held lands
  | settling (named : Named)
  | settled (named : Named)
  -- retired, with a preedit to hide
  | hidingPreedit (named : Named) (found : Retired) (superseded : Bool)
  | restoring (named : Named) (engine : String)
deriving DecidableEq

/-- A restore that was asked for: by which target, of which record, and whether a later lease had
been minted when the target was retired. -/
structure Restore where
  lease : ℕ
  record : ℕ
  superseded : Bool
deriving DecidableEq

/-- An engine that was switched away from: whether the acquire that did so had recorded it, and
whether who did so was not told of it, or not since it became global. -/
structure Undone where
  engine : String
  recorded : Bool
  unseen : Bool
deriving DecidableEq

/-- One connection, and the daemon's global engine. `switches` counts what made an engine global,
`recorded` the engines recorded as displaced; `failed` says that the last switch that an acquire
asked for did. -/
structure Injector where
  engine : EngineState := {}
  acquire : Option AcquirePc := none
  targets : Dict ℕ TargetPc := []
  global : String
  returned : List (Except InjectError ℕ) := []
  switches : ℕ := 0
  recorded : ℕ := 0
  restores : List Restore := []
  undone : List Undone := []
  failed : Bool := false
deriving DecidableEq

/-- What happens next: something of the engine's focus lands, another party makes an engine global,
an acquire begins or goes on, a target is asked for something or goes on, or the daemon handles a
call of one of these. -/
inductive Event
  | lands (landing : Landing)
  | other (name : String)
  | acquire
  | answer (answer : Except CallError (Option String)) (late : Bool)
  | registered (result : Except CallError Unit)
  | switched (result : Except CallError Unit)
  | acquireActs
  | commit (lease : ℕ)
  | release (lease : ℕ)
  | wrote (lease : ℕ)
  | told (lease : ℕ) (answer : Except CallError (Option String))
  | goes (lease : ℕ) (preedit : Bool)
  | restored (lease : ℕ) (result : Except CallError Unit)
deriving DecidableEq

/-- What comes from outside: the daemon's calls, time, the user. -/
def Landing.outside : Landing → Bool
  | .mint | .unfocus _ | .retire _ | .taken _ | .displace _ | .reclaim _ => false
  | _ => true

/-- What `displace` records. -/
def records (current : Option String) : Bool :=
  match current with
  | some name => !name.isEmpty && name ≠ ENGINE_NAME
  | none => false

/-- What an answer tells of the global engine. -/
def namedOf (answer : Except CallError (Option String)) (asked : ℕ) : Named :=
  match globalEngineOf answer with
  | .ok (some name) => if name = ENGINE_NAME then .ours asked else .other asked
  | _ => .nothing

namespace Injector

/-- A name that the daemon gives is that of its global engine. -/
def truthful (w : Injector) (answer : Except CallError (Option String)) : Bool :=
  match answer with
  | .ok (some name) => name = w.global
  | _ => true

/-- The daemon makes an engine global. -/
def setGlobal (w : Injector) (name : String) (recorded unseen : Bool) : Injector :=
  { w with
    global := name
    switches := w.switches + 1
    undone :=
      if w.global = ENGINE_NAME ∨ w.global = name then w.undone
      else w.undone ++ [⟨w.global, recorded, unseen⟩] }

def askedOf (w : Injector) (name : Option String) : Option ℕ :=
  if name.isSome then some w.switches else none

/-! ## An acquire -/

/-- An acquire returns. -/
def returns (w : Injector) (result : Except InjectError ℕ) : Injector :=
  { w with acquire := none, returned := w.returned ++ [result] }

/-- An acquire releases its target, and then fails. -/
def refuses (w : Injector) (lease : ℕ) (err : InjectError) : Injector :=
  { w with
    acquire := some (.releasing lease err)
    targets := w.targets.set lease (.asking true) }

/-- The daemon answers an acquire that asked for the global engine. -/
def answered (w : Injector) (answer : Except CallError (Option String)) (late : Bool) :
    Option Injector :=
  let name := globalEngineName answer
  match w.acquire with
  | some .reading => some { w with acquire := some (.registering name (w.askedOf name)) }
  | some (.polling a err) =>
    if name = a.before ∧ !late then some w
    else if reclaims a.switch (.failed a.before) name then
      some { w with
        acquire := some (.switching
          { a with displaced := name, switch := a.switch + 1, asked := w.askedOf name }) }
    else some (w.returns (.error err))
  | some (.checking a lease) => some { w with acquire := some (.checked a lease answer w.switches) }
  | _ => none

/-- The daemon registers our component, or does not. -/
def registered (w : Injector) (result : Except CallError Unit) : Option Injector :=
  match w.acquire with
  | some (.registering before asked) =>
    match result with
    | .ok () => some { w with acquire := some (.switching ⟨before, before, 1, asked⟩) }
    | .error e => some (w.returns (.error (classify "RegisterComponent" e)))
  | _ => none

/-- The daemon makes our engine global for an acquire, or fails to. -/
def switched (w : Injector) (result : Except CallError Unit) : Option Injector :=
  match w.acquire with
  | some (.minted a lease) =>
    let w' := { w with acquire := some (.answered a lease result) }
    match result with
    | .ok () => some (w'.setGlobal ENGINE_NAME (a.displaced = some w.global)
        (a.asked ≠ some w.switches))
    | .error _ => some w'
  | _ => none

/-- The acquire goes on by itself. -/
def acquireActs (w : Injector) : Option Injector :=
  match w.acquire with
  | some (.switching a) =>
    let engine := { w.engine with contentType := {} }
    some { w with engine := engine.mint.2, acquire := some (.minted a engine.mint.1) }
  | some (.answered a lease (.ok ())) =>
    some { w with
      engine := w.engine.displace a.displaced
      acquire := some (.focusing a lease)
      recorded := if records a.displaced then w.recorded + 1 else w.recorded
      failed := false }
  | some (.answered a lease (.error e)) =>
    some { w with
      engine := (w.engine.retire lease).2
      acquire := some (.polling a (classify "SetGlobalEngine" e))
      failed := true }
  -- however long `focus_arrived` waits
  | some (.focusing a lease) =>
    some { w with engine := w.engine.unfocus lease, acquire := some (.checking a lease) }
  | some (.checked a lease answer asked) =>
    match globalEngineOf answer with
    | .ok now =>
      if now = some ENGINE_NAME then some { w with acquire := some (.settling lease) }
      else if reclaims a.switch .answered now then
        some { w with
          engine := w.engine.taken lease
          acquire := some (.switching
            { a with displaced := now, switch := a.switch + 1, asked := some asked }) }
      else some (w.refuses lease .focusLost)
    | .error err => some (w.refuses lease err)
  | some (.settling lease) =>
    if w.engine.lease.id = lease ∧ w.engine.lease.binding.isLeft then none
    else if w.engine.onFake lease then some (w.refuses lease .noTarget)
    else if !w.engine.holds lease then some (w.refuses lease .focusLost)
    else if w.engine.contentType.isSecure then some (w.refuses lease .secureField)
    else some ({ w with targets := w.targets.set lease .idle }.returns (.ok lease))
  | some (.releasing lease err) =>
    match w.targets.get? lease with
    | none => some (w.returns (.error err))
    | some _ => none
  | _ => none

/-! ## A target -/

/-- What a retiring target hands back, and to whom. -/
def reclaim (w : Injector) (lease : ℕ) (named : Named) (found : Retired) (superseded : Bool) :
    Injector :=
  match (w.engine.reclaim found).1 with
  | some displaced =>
    { w with
      engine := (w.engine.reclaim found).2
      targets := w.targets.set lease (.restoring named displaced)
      restores := w.restores ++ [⟨lease, w.recorded, superseded⟩] }
  | none =>
    { w with engine := (w.engine.reclaim found).2, targets := w.targets.remove lease }

/-- A target goes on by itself; `preedit` says that it has one up. -/
def goes (w : Injector) (lease : ℕ) (preedit : Bool) : Option Injector :=
  match w.targets.get? lease with
  | some (.told release answer asked) =>
    let named := namedOf answer asked
    let engine := if named.isOther then w.engine.taken lease else w.engine
    some { w with
      engine
      targets := w.targets.set lease (if release then .settling named else .idle) }
  | some (.settling named) =>
    if (w.engine.settled lease true).isSome then
      some { w with targets := w.targets.set lease (.settled named) }
    else none
  | some (.settled named) =>
    let superseded := w.engine.nextLease ≠ lease + 1
    let found := (w.engine.retire lease).1
    let w := { w with engine := (w.engine.retire lease).2 }
    if preedit ∧ found = .held then
      some { w with targets := w.targets.set lease (.hidingPreedit named found superseded) }
    else some (w.reclaim lease named found superseded)
  | some (.hidingPreedit named found superseded) => some (w.reclaim lease named found superseded)
  | _ => none

/-- The daemon makes a displaced engine global again, or fails to. -/
def restored (w : Injector) (lease : ℕ) (result : Except CallError Unit) : Option Injector :=
  match w.targets.get? lease with
  | some (.restoring named engine) =>
    let w' := { w with targets := w.targets.remove lease }
    match result with
    | .ok () => some (w'.setGlobal engine false (named.asked ≠ some w.switches))
    | .error _ => some w'
  | _ => none

/-! ## Runs -/

def step (w : Injector) : Event → Option Injector
  | .lands landing =>
    if landing.outside then some { w with engine := w.engine.land landing } else none
  | .other name => some { w with global := name, switches := w.switches + 1 }
  | .acquire => if w.acquire = none then some { w with acquire := some .reading } else none
  | .answer answer late => if w.truthful answer then w.answered answer late else none
  | .registered result => w.registered result
  | .switched result => w.switched result
  | .acquireActs => w.acquireActs
  | .commit lease =>
    if w.targets.get? lease = some .idle then
      some { w with targets := w.targets.set lease (.asking false) }
    else none
  | .release lease =>
    if w.targets.get? lease = some .idle then
      some { w with targets := w.targets.set lease (.asking true) }
    else none
  | .wrote lease =>
    if (w.targets.get? lease).isSome then some { w with engine := w.engine.wrote lease } else none
  | .told lease answer =>
    match w.targets.get? lease with
    | some (.asking release) =>
      if w.truthful answer then
        some { w with targets := w.targets.set lease (.told release answer w.switches) }
      else none
    | _ => none
  | .goes lease preedit => w.goes lease preedit
  | .restored lease result => w.restored lease result

def run (w : Injector) (events : List Event) : Option Injector := events.foldlM step w

/-- Every target is released, and every acquire has returned. -/
def quiet (w : Injector) : Bool := w.acquire = none ∧ w.targets = []

/-- The conditions on a step: no other party switches, no restore fails, a switch to our engine
displaces one that the acquire was told of, and another engine is acted on while it is global. -/
def meets (w : Injector) : Event → Bool
  | .other _ => false
  | .restored _ (.error _) => false
  | .switched (.ok ()) =>
    match w.acquire with
    | some (.minted a _) =>
      w.global = ENGINE_NAME ∨ a.displaced = some w.global ∧ w.global.isEmpty = false
    | _ => true
  | .goes lease _ =>
    match w.targets.get? lease with
    | some (.told _ answer asked) => !(namedOf answer asked).isOther ∨ w.global ≠ ENGINE_NAME
    | _ => true
  | _ => true

/-- All steps of a run meet them. -/
def Meets (w : Injector) : List Event → Bool
  | [] => true
  | e :: events => w.meets e && (w.step e).all (Meets · events)

end Injector

end Ibus

end Desktop

end Myna

import Mathlib.Data.Finset.Dedup
import Mathlib.Data.Finset.Erase
import Mathlib.Data.Finset.Insert
import Myna.Config.ActiveBackend

/-!
# Myna — the steps of a switch (`myna_config::adapters::system_configurator`)

The adapter takes a switch plan apart into steps before it opens snapd's socket: disconnects, one
connect, and a restart of Myna's service at the end. What it does not know it refuses.

* **`validateSwitchPlan`** — the allowlist;
* **`validateSwitchPlan_new`** — a plan made from well-named backends passes it;
* **`switchesExactly_iff`** — when such a plan does exactly the switch.
-/

namespace Myna

namespace Config

/-! ## snapd's names -/

def hasDoubleHyphen : List Char → Bool
  | '-' :: '-' :: _ => true
  | _ :: rest => hasDoubleHyphen rest
  | [] => false

/-- `is_valid_slot_name`. -/
def isValidSlotName (name : String) : Bool :=
  if !name.toList.head?.any isAsciiLowercase || name.toList.getLast? = some '-' then false
  else !hasDoubleHyphen name.toList && name.toList.all isNameChar

/-! ## Steps -/

inductive InterfaceAction
  | connect (backendSnap backendSlot : String)
  | disconnect (backendSnap backendSlot : String)
deriving DecidableEq

inductive SwitchStep
  | interface (request : CommandRequest) (action : InterfaceAction)
  | restart (request : CommandRequest)
deriving DecidableEq

namespace SwitchStep

/-- `request_for_step`. -/
def request : SwitchStep → CommandRequest
  | interface request _ => request
  | restart request => request

def isConnect : SwitchStep → Bool
  | interface _ (.connect ..) => true
  | _ => false

def isDisconnect : SwitchStep → Bool
  | interface _ (.disconnect ..) => true
  | _ => false

def isRestart : SwitchStep → Bool
  | restart _ => true
  | _ => false

end SwitchStep

def ALLOWED_PLUG : String := "myna:backend"

def INTERFACES : String := "/v2/interfaces"

def snapdRequest (method path what : String) : String :=
  method ++ " " ++ path ++ " (" ++ what ++ ")"

def interfaceRequest (request : CommandRequest) : String :=
  snapdRequest "POST" INTERFACES (" ".intercalate request.arguments)

def invalidSwitchPlan (request : CommandRequest) (message : String) : SystemConfiguratorFailure :=
  ⟨[], .snapdExecution (interfaceRequest request) none message⟩

/-! ## Validating -/

/-- The slot of a connect or a disconnect, in its two parts. -/
def validateSlot (slot : String) : Except String (String × String) :=
  match List.splitOnce [':'] slot.toList with
  | none => .error ("malformed slot " ++ slot)
  | some (backend, slot) =>
    if !isValidSnapName (String.ofList backend) then
      .error ("invalid backend snap name: " ++ String.ofList backend)
    else if !isValidSlotName (String.ofList slot) then
      .error ("invalid backend slot name: " ++ String.ofList slot)
    else .ok (String.ofList backend, String.ofList slot)

/-- A connect or a disconnect, of the arguments after its name. -/
def validateInterface (action : String → String → InterfaceAction) (request : CommandRequest) :
    Except String SwitchStep :=
  match request.arguments with
  | [_, plug, slot] =>
    if plug ≠ ALLOWED_PLUG then .error ("unexpected plug " ++ plug)
    else
      match validateSlot slot with
      | .ok (backendSnap, backendSlot) => .ok (.interface request (action backendSnap backendSlot))
      | .error message => .error message
  | args => .error ("switch plan operation must have 3 arguments, got " ++ toString args.length)

/-- `validate_operation`. -/
def validateSwitchOperation (request : CommandRequest) : Except String SwitchStep :=
  if request.executable = "systemctl" then
    if request ≠ mynaRestartRequest then
      .error "restart must be exactly Myna's user service"
    else .ok (.restart request)
  else if request.executable ≠ "snap" then
    .error ("unexpected executable in switch plan: " ++ request.executable)
  else
    match request.arguments.head? with
    | some "connect" => validateInterface .connect request
    | some "disconnect" => validateInterface .disconnect request
    | some other => .error ("unknown snap action " ++ other)
    | none => .error "switch plan operation has no arguments"

/-- Every operation in turn, until one is refused. -/
def validateSteps : List CommandRequest → Except SystemConfiguratorFailure (List SwitchStep)
  | [] => .ok []
  | request :: rest =>
    match validateSwitchOperation request with
    | .error message => .error (invalidSwitchPlan request message)
    | .ok step =>
      match validateSteps rest with
      | .error failure => .error failure
      | .ok steps => .ok (step :: steps)

/-- The request of the step at an index that is in range. -/
def requestAt (steps : List SwitchStep) (index : ℕ) : CommandRequest :=
  ((steps[index]?).map SwitchStep.request).getD mynaRestartRequest

/-- The checks on the order of the steps; `last` is the plan's last operation. -/
def validateOrder (last : CommandRequest) (steps : List SwitchStep) :
    Except SystemConfiguratorFailure (List SwitchStep) :=
  match steps.findIdxs SwitchStep.isConnect, steps.findIdxs SwitchStep.isRestart with
  | [], _ => .error (invalidSwitchPlan last "switch plan is missing the final connect")
  | _ :: second :: _, _ =>
    .error (invalidSwitchPlan (requestAt steps second)
      "switch plan must contain exactly one connect")
  | [_], [] => .error (invalidSwitchPlan last "switch plan is missing the final restart")
  | [_], _ :: second :: _ =>
    .error (invalidSwitchPlan (requestAt steps second) "duplicate restart in switch plan")
  | [connectIndex], [restartIndex] =>
    if restartIndex ≤ connectIndex then
      .error (invalidSwitchPlan (requestAt steps restartIndex)
        "restart must follow the final connect")
    else if restartIndex ≠ steps.length - 1 then
      .error (invalidSwitchPlan (requestAt steps restartIndex)
        "restart must be the final switch operation")
    else
      match ((steps.drop (connectIndex + 1)).take (restartIndex - connectIndex - 1)).find?
          SwitchStep.isDisconnect with
      | some step => .error (invalidSwitchPlan step.request "disconnect cannot follow connect")
      | none => .ok steps

def validateSwitchPlan (operations : List CommandRequest) :
    Except SystemConfiguratorFailure (List SwitchStep) :=
  match operations.getLast? with
  | none => .ok []
  | some last =>
    match validateSteps operations with
    | .error failure => .error failure
    | .ok steps => validateOrder last steps

/-! ## What the steps do -/

/-- A slot that feeds Myna, by its snap and its name. -/
abbrev Feed := String × String

def BackendIdentity.feed (backend : BackendIdentity) : Feed := (backend.snapName, backend.slotName)

/-- What a step does to the connections of `myna:backend`. -/
def SwitchStep.apply (feeds : Finset Feed) : SwitchStep → Finset Feed
  | .interface _ (.connect snap slot) => insert (snap, slot) feeds
  | .interface _ (.disconnect snap slot) => feeds.erase (snap, slot)
  | .restart _ => feeds

/-- The connections of `myna:backend`, as snapd lists them. -/
def feedsOf (connections : ContentConnections) : Finset Feed :=
  ((connections.slots.filter ContentSlot.feedsMyna).map fun content =>
    (content.snap, content.slot)).toFinset

/-- The operations of a plan are accepted, and do exactly the switch to `selected`: on the way
nothing is connected beside what was, and in the end `selected` alone is. -/
structure SwitchesExactly (feeds : Finset Feed) (selected : BackendIdentity)
    (operations : List CommandRequest) (steps : List SwitchStep) : Prop where
  accepted : validateSwitchPlan operations = .ok steps
  onTheWay : ∀ k, (steps.take k).foldl SwitchStep.apply feeds ⊆ feeds ∨
    (steps.take k).foldl SwitchStep.apply feeds = {selected.feed}
  atTheEnd : steps.foldl SwitchStep.apply feeds = {selected.feed}
  noop : operations = [] → feeds = {selected.feed}

/-! ## snapd's grammar -/

/-- A letter or a digit, of those that snapd's names are made of. -/
def isAlnum (c : Char) : Bool := isAsciiLowercase c || isAsciiDigit c

/-- `(?:-?[a-z0-9])*`: what follows the first character of a name. -/
inductive NameTail : List Char → Prop
  | nil : NameTail []
  | char {c : Char} {rest : List Char} (hc : isAlnum c = true) (h : NameTail rest) :
    NameTail (c :: rest)
  | hyphen {c : Char} {rest : List Char} (hc : isAlnum c = true) (h : NameTail rest) :
    NameTail ('-' :: c :: rest)

def nameTail : List Char → Bool
  | [] => true
  | '-' :: c :: rest => isAlnum c && nameTail rest
  | c :: rest => isAlnum c && nameTail rest

theorem NameTail.of_check : ∀ {l : List Char}, nameTail l = true → NameTail l
  | [], _ => .nil
  | c :: rest, h => by
    rw [nameTail.eq_def] at h
    split at h
    · cases ‹c :: rest = []›
    · rename_i heq
      obtain ⟨rfl, rfl⟩ := List.cons.inj heq
      obtain ⟨hd, hrest⟩ := Bool.and_eq_true_iff.mp h
      exact .hyphen hd (of_check hrest)
    · rename_i heq
      obtain ⟨rfl, rfl⟩ := List.cons.inj heq
      obtain ⟨hc, hrest⟩ := Bool.and_eq_true_iff.mp h
      exact .char hc (of_check hrest)

/-- snapd's slot names: `^[a-z](?:-?[a-z0-9])*$`. -/
def IsSlotName (name : String) : Prop :=
  ∃ c rest, name.toList = c :: rest ∧ isAsciiLowercase c = true ∧ NameTail rest

/-- snapd's snap names, with no instance key; snapd asks for a letter in them, too. -/
def IsSnapName (name : String) : Prop :=
  ∃ c rest, name.toList = c :: rest ∧ isAlnum c = true ∧ NameTail rest ∧ name.utf8ByteSize ≤ 40

def BackendIdentity.WellNamed (backend : BackendIdentity) : Prop :=
  IsSnapName backend.snapName ∧ IsSlotName backend.slotName

theorem ne_hyphen {c : Char} (h : isAlnum c = true) : c ≠ '-' := by
  rintro rfl
  exact absurd h (by decide)

theorem isAlnum_of_lowercase {c : Char} (h : isAsciiLowercase c = true) : isAlnum c = true := by
  rw [isAlnum, h]
  rfl

theorem snapNameChars_cons {c : Char} (hc : isAlnum c = true) (rest : List Char)
    (prevHyphen : Bool) : snapNameChars (c :: rest) prevHyphen = snapNameChars rest false := by
  rw [snapNameChars]
  exact if_pos hc

namespace NameTail

variable {rest : List Char}

theorem snapNameChars (h : NameTail rest) : Config.snapNameChars rest false = true := by
  induction h with
  | nil => rfl
  | char hc _ ih => rw [snapNameChars_cons hc, ih]
  | hyphen hc _ ih =>
    show Config.snapNameChars (_ :: _) true = true
    rw [snapNameChars_cons hc, ih]

theorem noDoubleHyphen (h : NameTail rest) {c : Char} (hc : isAlnum c = true) :
    hasDoubleHyphen (c :: rest) = false := by
  induction h generalizing c with
  | nil => simp [hasDoubleHyphen]
  | @char d rest hd _ ih => simpa [hasDoubleHyphen, ne_hyphen hc] using ih hd
  | @hyphen d rest hd _ ih => simpa [hasDoubleHyphen, ne_hyphen hc, ne_hyphen hd] using ih hd

theorem all_isNameChar (h : NameTail rest) : rest.all isNameChar = true := by
  induction h with
  | nil => rfl
  | char hc _ ih => simp_all [isNameChar, isAlnum]
  | hyphen hc _ ih => simp_all [isNameChar, isAlnum]

theorem getLast?_ne (h : NameTail rest) {c : Char} (hc : isAlnum c = true) :
    (c :: rest).getLast? ≠ some '-' := by
  induction h generalizing c with
  | nil =>
    intro heq
    exact ne_hyphen hc (Option.some.inj heq)
  | char hd _ ih => simpa using ih hd
  | hyphen hd _ ih => simpa using ih hd

theorem colon_not_mem (h : NameTail rest) : ':' ∉ rest := by
  intro hmem
  have := List.all_eq_true.mp h.all_isNameChar ':' hmem
  exact absurd this (by decide)

end NameTail

theorem IsSnapName.valid {name : String} (h : IsSnapName name) : isValidSnapName name = true := by
  obtain ⟨c, rest, hlist, hc, htail, hsize⟩ := h
  have hne : name.isEmpty = false := by
    rw [← Bool.not_eq_true, String.isEmpty_iff]
    rintro rfl
    cases hlist
  have hhead : (!(c :: rest).head?.any fun c => isAsciiLowercase c || isAsciiDigit c) = false :=
    congrArg not hc
  unfold isValidSnapName
  rw [hne, hlist, if_neg (by simpa using hsize), hhead, if_neg Bool.false_ne_true,
    if_neg (htail.getLast?_ne hc), snapNameChars_cons hc, htail.snapNameChars]

theorem IsSnapName.colon_not_mem {name : String} (h : IsSnapName name) : ':' ∉ name.toList := by
  obtain ⟨c, rest, hlist, hc, htail, -⟩ := h
  rw [hlist, List.mem_cons, not_or]
  refine ⟨?_, htail.colon_not_mem⟩
  rintro rfl
  exact absurd hc (by decide)

theorem IsSlotName.valid {name : String} (h : IsSlotName name) : isValidSlotName name = true := by
  obtain ⟨c, rest, hlist, hc, htail⟩ := h
  have halnum := isAlnum_of_lowercase hc
  unfold isValidSlotName
  rw [hlist, if_neg (by simpa [hc] using htail.getLast?_ne halnum),
    htail.noDoubleHyphen halnum, List.all_cons, htail.all_isNameChar]
  simp [isNameChar, hc]

/-! ## The steps of a plan -/

def disconnectStep (backend : BackendIdentity) : SwitchStep :=
  .interface (privilegedSnapRequest "disconnect" backend.slot)
    (.disconnect backend.snapName backend.slotName)

def connectStep (backend : BackendIdentity) : SwitchStep :=
  .interface (privilegedSnapRequest "connect" backend.slot)
    (.connect backend.snapName backend.slotName)

theorem validateSlot_slot {backend : BackendIdentity} (h : backend.WellNamed) :
    validateSlot backend.slot = .ok backend.feed := by
  have hcut : List.splitOnce [':'] backend.slot.toList =
      some (backend.snapName.toList, backend.slotName.toList) :=
    List.splitOnce_singleton.mpr
      ⟨by simp [BackendIdentity.slot], h.1.colon_not_mem⟩
  unfold validateSlot
  rw [hcut]
  dsimp only
  rw [String.ofList_toList, String.ofList_toList, h.1.valid, h.2.valid]
  rfl

theorem validateSwitchOperation_disconnect {backend : BackendIdentity} (h : backend.WellNamed) :
    validateSwitchOperation (privilegedSnapRequest "disconnect" backend.slot) =
      .ok (disconnectStep backend) := by
  simp [validateSwitchOperation, validateInterface, privilegedSnapRequest, ALLOWED_PLUG,
    validateSlot_slot h, disconnectStep, BackendIdentity.feed]

theorem validateSwitchOperation_connect {backend : BackendIdentity} (h : backend.WellNamed) :
    validateSwitchOperation (privilegedSnapRequest "connect" backend.slot) =
      .ok (connectStep backend) := by
  simp [validateSwitchOperation, validateInterface, privilegedSnapRequest, ALLOWED_PLUG,
    validateSlot_slot h, connectStep, BackendIdentity.feed]

theorem validateSteps_append {f : BackendIdentity → CommandRequest}
    {g : BackendIdentity → SwitchStep} {rest : List CommandRequest} {steps : List SwitchStep}
    (hrest : validateSteps rest = .ok steps) {backends : List BackendIdentity}
    (h : ∀ backend ∈ backends, validateSwitchOperation (f backend) = .ok (g backend)) :
    validateSteps (backends.map f ++ rest) = .ok (backends.map g ++ steps) := by
  induction backends with
  | nil => exact hrest
  | cons backend backends ih =>
    show validateSteps (f backend :: (backends.map f ++ rest)) = _
    rw [validateSteps, h backend List.mem_cons_self]
    dsimp only
    rw [ih fun other hmem => h other (List.mem_cons_of_mem _ hmem)]
    rfl

/-- The steps from a switch's disconnects on. -/
def switchSteps (leaving : List BackendIdentity) (selected : BackendIdentity) : List SwitchStep :=
  leaving.map disconnectStep ++ [connectStep selected, .restart mynaRestartRequest]

theorem validateOrder_switchSteps (last : CommandRequest) (leaving : List BackendIdentity)
    (selected : BackendIdentity) :
    validateOrder last (switchSteps leaving selected) = .ok (switchSteps leaving selected) := by
  have hno : ∀ (p : SwitchStep → Bool), (∀ backend, p (disconnectStep backend) = false) →
      (leaving.map disconnectStep).findIdxs p = [] := by
    intro p hp
    rw [List.findIdxs_eq_nil_iff]
    simpa using fun backend _ => hp backend
  have hconnect : (switchSteps leaving selected).findIdxs SwitchStep.isConnect =
      [leaving.length] := by
    rw [switchSteps, List.findIdxs_append, hno _ fun _ => rfl]
    simp [SwitchStep.isConnect, connectStep]
  have hrestart : (switchSteps leaving selected).findIdxs SwitchStep.isRestart =
      [leaving.length + 1] := by
    rw [switchSteps, List.findIdxs_append, hno _ fun _ => rfl]
    simp [SwitchStep.isRestart, connectStep]
  unfold validateOrder
  rw [hconnect, hrestart]
  simp [switchSteps]

theorem validateSwitchPlan_switch {leaving : List BackendIdentity} {selected : BackendIdentity}
    (hleaving : ∀ backend ∈ leaving, backend.WellNamed) (hselected : selected.WellNamed) :
    validateSwitchPlan
        (leaving.map (fun backend => privilegedSnapRequest "disconnect" backend.slot) ++
          [privilegedSnapRequest "connect" selected.slot, mynaRestartRequest]) =
      .ok (switchSteps leaving selected) := by
  have hend : validateSteps [privilegedSnapRequest "connect" selected.slot, mynaRestartRequest] =
      .ok [connectStep selected, .restart mynaRestartRequest] := by
    rw [validateSteps, validateSwitchOperation_connect hselected]
    rfl
  have hsteps := validateSteps_append hend
    fun backend hmem => validateSwitchOperation_disconnect (hleaving backend hmem)
  unfold validateSwitchPlan
  rw [List.getLast?_append, hsteps]
  exact validateOrder_switchSteps _ leaving selected

/-! ## What the steps leave -/

theorem mem_disconnected {backends : List BackendIdentity} {feeds : Finset Feed} {feed : Feed} :
    feed ∈ (backends.map disconnectStep).foldl SwitchStep.apply feeds ↔
      feed ∈ feeds ∧ ∀ backend ∈ backends, backend.feed ≠ feed := by
  induction backends generalizing feeds with
  | nil => simp
  | cons backend backends ih =>
    show feed ∈ (backends.map disconnectStep).foldl SwitchStep.apply (feeds.erase backend.feed) ↔ _
    rw [ih, Finset.mem_erase, List.forall_mem_cons]
    constructor
    · rintro ⟨⟨hne, hmem⟩, hrest⟩
      exact ⟨hmem, hne.symm, hrest⟩
    · rintro ⟨hmem, hne, hrest⟩
      exact ⟨⟨hne.symm, hmem⟩, hrest⟩

theorem take_disconnected (backends : List BackendIdentity) (feeds : Finset Feed) (k : ℕ) :
    ((backends.map disconnectStep).take k).foldl SwitchStep.apply feeds ⊆ feeds := by
  rw [← List.map_take]
  exact fun feed hmem => (mem_disconnected.mp hmem).1

section

variable {leaving : List BackendIdentity} {selected : BackendIdentity} {feeds : Finset Feed}

/-- Once everything is disconnected, the connect is the first connection. -/
theorem disconnected_eq_empty (h : ∀ feed ∈ feeds, ∃ backend ∈ leaving, backend.feed = feed) :
    (leaving.map disconnectStep).foldl SwitchStep.apply feeds = ∅ := by
  rw [Finset.eq_empty_iff_forall_notMem]
  intro feed hmem
  obtain ⟨hfeed, hne⟩ := mem_disconnected.mp hmem
  obtain ⟨backend, hbackend, heq⟩ := h feed hfeed
  exact hne backend hbackend heq

theorem foldl_switchSteps (h : ∀ feed ∈ feeds, ∃ backend ∈ leaving, backend.feed = feed) :
    (switchSteps leaving selected).foldl SwitchStep.apply feeds = {selected.feed} := by
  rw [switchSteps, List.foldl_append, disconnected_eq_empty h]
  rfl

theorem take_switchSteps (h : ∀ feed ∈ feeds, ∃ backend ∈ leaving, backend.feed = feed) (k : ℕ) :
    ((switchSteps leaving selected).take k).foldl SwitchStep.apply feeds ⊆ feeds ∨
      ((switchSteps leaving selected).take k).foldl SwitchStep.apply feeds = {selected.feed} := by
  rw [switchSteps, List.take_append, List.length_map]
  rcases hk : k - leaving.length with _ | n
  · rw [List.take_zero, List.append_nil]
    exact .inl (take_disconnected leaving feeds k)
  · rw [List.take_of_length_le (by rw [List.length_map]; omega), List.foldl_append,
      disconnected_eq_empty h]
    right
    cases n with
    | zero => rfl
    | succ n =>
      rw [List.take_of_length_le (by simp)]
      rfl

end

/-! ## Exactly the switch -/

theorem modelctlApp_eq_none {connections : ContentConnections} {backend : BackendIdentity}
    (h : backend ∈ (connectionSnapshot connections).backends ∨
      backend ∈ (connectionSnapshot connections).strays) : backend.modelctlApp = none := by
  rcases h with h | h
  · obtain ⟨content, -, -, rfl⟩ := mem_backends.mp h
    rfl
  · obtain ⟨content, -, -, rfl⟩ := mem_strays.mp h
    rfl

theorem eq_of_feed {a b : BackendIdentity} (ha : a.modelctlApp = none) (hb : b.modelctlApp = none)
    (h : a.feed = b.feed) : a = b := by
  obtain ⟨snap, slot, app⟩ := a
  obtain ⟨snap', slot', app'⟩ := b
  obtain ⟨rfl, rfl⟩ := Prod.mk.inj h
  obtain rfl : app = none := ha
  obtain rfl : app' = none := hb
  rfl

/-- The connections are those of the models and of the strays. -/
theorem mem_feedsOf {connections : ContentConnections} {feed : Feed} :
    feed ∈ feedsOf connections ↔
      ∃ backend ∈ connectedBackends (connectionSnapshot connections) ++
        (connectionSnapshot connections).strays, backend.feed = feed := by
  simp only [feedsOf, List.mem_toFinset, List.mem_map, List.mem_filter, List.mem_append]
  constructor
  · rintro ⟨content, ⟨hcontent, hfeeds⟩, rfl⟩
    refine ⟨content.backend, ?_, rfl⟩
    cases hmodel : content.isModel with
    | true => exact .inl (mem_connected.mpr ⟨content, hcontent, ⟨hmodel, hfeeds⟩, rfl⟩)
    | false => exact .inr (mem_strays.mpr ⟨content, hcontent, ⟨hmodel, hfeeds⟩, rfl⟩)
  · rintro ⟨backend, hmem | hmem, rfl⟩
    · obtain ⟨content, hcontent, ⟨-, hfeeds⟩, rfl⟩ := mem_connected.mp hmem
      exact ⟨content, ⟨hcontent, hfeeds⟩, rfl⟩
    · obtain ⟨content, hcontent, ⟨-, hfeeds⟩, rfl⟩ := mem_strays.mp hmem
      exact ⟨content, ⟨hcontent, hfeeds⟩, rfl⟩

section

variable {connections : ContentConnections} {selected : BackendIdentity}

/-- With the model connected already, the strays are what is connected beside it. -/
theorem feedsOf_eq_singleton_iff
    (hselected : selected ∈ (connectionSnapshot connections).backends)
    (hconnected : connectedBackends (connectionSnapshot connections) = [selected]) :
    feedsOf connections = {selected.feed} ↔
      ∀ stray ∈ (connectionSnapshot connections).strays, stray = selected := by
  have happ := modelctlApp_eq_none (.inl hselected)
  constructor
  · intro h stray hmem
    have hfeed : stray.feed ∈ feedsOf connections :=
      mem_feedsOf.mpr ⟨stray, List.mem_append_right _ hmem, rfl⟩
    rw [h, Finset.mem_singleton] at hfeed
    exact eq_of_feed (modelctlApp_eq_none (.inr hmem)) happ hfeed
  · intro h
    ext feed
    rw [mem_feedsOf, hconnected, Finset.mem_singleton]
    constructor
    · rintro ⟨backend, hmem, rfl⟩
      rcases List.mem_append.mp hmem with hmem | hmem
      · rw [List.mem_singleton.mp hmem]
      · rw [h backend hmem]
    · rintro rfl
      exact ⟨selected, by simp, rfl⟩

/-- **When a plan does exactly the switch.** It does, but for strays that it leaves connected beside
the model asked for, where that is connected already. -/
theorem switchesExactly_iff (connections : ContentConnections) (selected : BackendIdentity)
    (plan : SwitchPlan)
    (hplan : SwitchPlan.new (connectionSnapshot connections) selected = .ok plan)
    (hbackends : ∀ backend ∈ (connectionSnapshot connections).backends, backend.WellNamed)
    (hstrays : ∀ stray ∈ (connectionSnapshot connections).strays, stray.WellNamed) :
    (∃ steps, SwitchesExactly (feedsOf connections) selected plan.operations steps) ↔
      ¬ (connectedBackends (connectionSnapshot connections) = [selected] ∧
        ∃ stray ∈ (connectionSnapshot connections).strays, stray ≠ selected) := by
  obtain ⟨hselected, -, -, hoperations⟩ := SwitchPlan.new_eq_ok hplan
  have hinstalled := (connectionSnapshot_wellFormed connections).installed
  by_cases hconnected : connectedBackends (connectionSnapshot connections) = [selected]
  · rw [if_pos hconnected] at hoperations
    have hfeeds := feedsOf_eq_singleton_iff hselected hconnected
    rw [hoperations]
    constructor
    · rintro ⟨steps, h⟩ ⟨-, stray, hmem, hne⟩
      exact hne (hfeeds.mp (h.noop rfl) stray hmem)
    · intro h
      have halone : feedsOf connections = {selected.feed} := by
        refine hfeeds.mpr fun stray hmem => ?_
        by_contra hne
        exact h ⟨hconnected, stray, hmem, hne⟩
      exact ⟨[], rfl, fun k => .inr (by simpa using halone), halone, fun _ => halone⟩
  · rw [if_neg hconnected] at hoperations
    refine iff_of_true ⟨switchSteps (connectedBackends (connectionSnapshot connections) ++
      (connectionSnapshot connections).strays) selected, ?_⟩ fun h => hconnected h.1
    have hcover : ∀ feed ∈ feedsOf connections, _ := fun feed hmem => mem_feedsOf.mp hmem
    rw [hoperations]
    refine ⟨validateSwitchPlan_switch ?_ (hbackends _ hselected), take_switchSteps hcover,
      foldl_switchSteps hcover, ?_⟩
    · intro backend hmem
      rcases List.mem_append.mp hmem with hmem | hmem
      · exact hbackends _ (hinstalled _ hmem)
      · exact hstrays _ hmem
    · intro hnil
      simp at hnil

end

/-! ## A model and a stray -/

/-- A model that feeds Myna, another one, and an LLM's provider that feeds Myna or does not. -/
def providers (stray : Bool) : ContentConnections :=
  ⟨[{ snap := "gemma4", slot := "provider", attrs := [("content", .str PROVIDER_CONTENT_ID)]
      connections := if stray then [⟨"myna", "backend"⟩] else [] },
    { snap := "myna-whisper", slot := "provider", attrs := [("content", .str PROVIDER_CONTENT_ID)]
      connections := [⟨"myna", "backend"⟩] },
    { snap := "myna-parakeet", slot := "provider"
      attrs := [("content", .str PROVIDER_CONTENT_ID)] }]⟩

theorem providers_wellNamed (stray : Bool) :
    (∀ backend ∈ (connectionSnapshot (providers stray)).backends, backend.WellNamed) ∧
      ∀ backend ∈ (connectionSnapshot (providers stray)).strays, backend.WellNamed := by
  have hslot : IsSlotName "provider" :=
    ⟨'p', "rovider".toList, by decide +kernel, by decide, .of_check (by decide +kernel)⟩
  have hgemma : IsSnapName "gemma4" :=
    ⟨'g', "emma4".toList, by decide +kernel, by decide, .of_check (by decide +kernel),
      by decide +kernel⟩
  have hwhisper : IsSnapName "myna-whisper" :=
    ⟨'m', "yna-whisper".toList, by decide +kernel, by decide, .of_check (by decide +kernel),
      by decide +kernel⟩
  have hparakeet : IsSnapName "myna-parakeet" :=
    ⟨'m', "yna-parakeet".toList, by decide +kernel, by decide, .of_check (by decide +kernel),
      by decide +kernel⟩
  have hnamed : ∀ content ∈ (providers stray).slots, content.backend.WellNamed := by
    intro content hmem
    simp only [providers, List.mem_cons, List.not_mem_nil, or_false] at hmem
    rcases hmem with rfl | rfl | rfl
    · exact ⟨hgemma, hslot⟩
    · exact ⟨hwhisper, hslot⟩
    · exact ⟨hparakeet, hslot⟩
  constructor
  · intro backend hmem
    obtain ⟨content, hcontent, -, rfl⟩ := mem_backends.mp hmem
    exact hnamed content hcontent
  · intro backend hmem
    obtain ⟨content, hcontent, -, rfl⟩ := mem_strays.mp hmem
    exact hnamed content hcontent

/-- The plan to another model takes the stray away, too. -/
theorem toParakeet_switches :
    ∃ steps, SwitchesExactly (feedsOf (providers true)) (.new "myna-parakeet" "provider")
      [privilegedSnapRequest "disconnect" "myna-whisper:provider",
        privilegedSnapRequest "disconnect" "gemma4:provider",
        privilegedSnapRequest "connect" "myna-parakeet:provider", mynaRestartRequest] steps :=
  (switchesExactly_iff (providers true) (.new "myna-parakeet" "provider")
    ⟨connectionSnapshot (providers true), .new "myna-parakeet" "provider", _⟩ (by decide +kernel)
    (providers_wellNamed true).1 (providers_wellNamed true).2).mpr (by decide +kernel)

/-- Asked for the model that is connected, the plan is empty, and the stray stays. -/
theorem toWhisper_leaves_stray :
    (∀ backend ∈ (connectionSnapshot (providers true)).backends, backend.WellNamed) ∧
      (∀ backend ∈ (connectionSnapshot (providers true)).strays, backend.WellNamed) ∧
      SwitchPlan.new (connectionSnapshot (providers true)) (.new "myna-whisper" "provider") =
        .ok ⟨connectionSnapshot (providers true), .new "myna-whisper" "provider", []⟩ ∧
      ("gemma4", "provider") ∈ feedsOf (providers true) ∧
      ¬ ∃ steps, SwitchesExactly (feedsOf (providers true)) (.new "myna-whisper" "provider") []
        steps := by
  have hmem : ("gemma4", "provider") ∈ feedsOf (providers true) := by decide +kernel
  refine ⟨(providers_wellNamed true).1, (providers_wellNamed true).2, by decide +kernel, hmem, ?_⟩
  rintro ⟨steps, h⟩
  rw [h.noop rfl, Finset.mem_singleton] at hmem
  exact absurd hmem (by decide)

end Config

end Myna

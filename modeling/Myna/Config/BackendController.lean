import Myna.Config.ActiveBackend

/-!
# Myna — the backend pages (`myna_config::backend_controller`)

The controller keeps one page for each backend snap, the order of the pages, and which of them feed
Myna. A read is begun and completed by its caller: it carries a generation number, and a token that
its page cancels when the read is of no more use. Pages come and go with each discovery.

* **`connectionSnapshot_applyDiscovery`** — what the controller shows of a discovery it accepts;
* **`shows_iff`** — when that is what the discovery read.
-/

namespace Myna

namespace Config

/-! ## Cancellation tokens -/

/-- A token, by the order in which it was made. -/
abbrev Token := ℕ

/-- The tokens there are: how many were made, and the cancelled ones. -/
structure Tokens where
  made : ℕ := 0
  cancelled : List Token := []
deriving DecidableEq

namespace Tokens

/-- `CancellationToken::new`, of the token `tokens.made`. -/
def next (tokens : Tokens) : Tokens := { tokens with made := tokens.made + 1 }

def cancel (tokens : Tokens) (token : Option Token) : Tokens :=
  { tokens with cancelled := tokens.cancelled ++ token.toList }

def isCancelled (tokens : Tokens) (token : Token) : Bool := tokens.cancelled.contains token

end Tokens

/-! ## The state -/

inductive ConnectionKind
  | disconnected
  | active
  | contested
deriving DecidableEq

inductive ControllerEvent
  | discoveryStarted
  | discoveryChanged
  | discoveryFailed (error : BackendSurfaceError)
  | backendChanged (backend : BackendIdentity)
deriving DecidableEq

/-- In milliseconds. -/
def FOCUS_REDISCOVERY_INTERVAL : ℕ := 2000

structure DiscoveryRequest where
  generation : ℕ
  token : Token
  quiet : Bool
deriving DecidableEq

structure SnapshotRequest where
  snap : String
  generation : ℕ
  token : Token
deriving DecidableEq

/-- A page; `S` is what a read of a backend gives. -/
structure PageEntry (S : Type) where
  identity : BackendIdentity
  connection : ConnectionKind := .disconnected
  snapshot : Option S := none
  snapshotGeneration : ℕ := 0
  latestCompletedSnapshot : ℕ := 0
  inflightToken : Option Token := none
  loading : Bool := false

/-- The page without the read it waited for. -/
def PageEntry.idle {S : Type} (entry : PageEntry S) : PageEntry S :=
  { entry with inflightToken := none, loading := false }

structure Inner (S : Type) where
  pages : Dict String (PageEntry S) := []
  order : List String := []
  active : ActiveBackendState := .disconnected
  discoveryGeneration : ℕ := 0
  latestCompletedDiscovery : ℕ := 0
  discoveryToken : Option Token := none
  discoveryLoading : Bool := false
  lastDiscoveryStarted : Option ℕ := none
  lastDiscoveryError : Option BackendSurfaceError := none
  tokens : Tokens := {}

variable {S : Type}

namespace Inner

/-- `BackendController::connection_snapshot`. -/
def connectionSnapshot (inner : Inner S) : ConnectionSnapshot :=
  .new (inner.order.filterMap fun snap => (inner.pages.get? snap).map PageEntry.identity)
    inner.active

/-! ## Discovery -/

def beginDiscovery (inner : Inner S) (now : ℕ) (quiet : Bool) : DiscoveryRequest × Inner S :=
  (⟨inner.discoveryGeneration + 1, inner.tokens.made, quiet⟩,
    { inner with
      discoveryGeneration := inner.discoveryGeneration + 1
      discoveryLoading := !quiet
      lastDiscoveryStarted := some now
      discoveryToken := some inner.tokens.made
      tokens := (inner.tokens.cancel inner.discoveryToken).next })

def beginFocusDiscovery (inner : Inner S) (now : ℕ) : Option (DiscoveryRequest × Inner S) :=
  let recent := inner.lastDiscoveryStarted.any fun started =>
    now - started < FOCUS_REDISCOVERY_INTERVAL
  if inner.discoveryToken.isSome || recent then none else some (inner.beginDiscovery now true)

/-- The pages that a discovery does not name. -/
def removed (inner : Inner S) (names : List String) : List String :=
  inner.order.filter fun name => !names.contains name

def removePage (inner : Inner S) (snap : String) : Inner S :=
  match inner.pages.get? snap with
  | none => inner
  | some entry =>
    { inner with
      pages := inner.pages.remove snap
      tokens := inner.tokens.cancel entry.inflightToken }

/-- A discovered backend's page: made, or its identity kept up to date. -/
def discover (inner : Inner S) (identity : BackendIdentity) :
    Inner S × Bool × List ControllerEvent :=
  match inner.pages.get? identity.snapName with
  | none =>
    ({ inner with pages := inner.pages.insertSorted identity.snapName { identity } }, true, [])
  | some entry =>
    if entry.identity ≠ identity then
      ({ inner with
        pages := inner.pages.set identity.snapName { entry with identity := identity } },
        true, [.backendChanged identity])
    else (inner, false, [])

/-- The loop over the discovered backends; `changed` and `events` are gathered on the way. -/
def discoverAll : List BackendIdentity → Inner S × Bool × List ControllerEvent →
    Inner S × Bool × List ControllerEvent
  | [], state => state
  | identity :: rest, (inner, changed, events) =>
    let (inner, change, more) := inner.discover identity
    discoverAll rest (inner, changed || change, events ++ more)

end Inner

def activeNames : ActiveBackendState → List String
  | .connected identity => [identity.snapName]
  | .multiplyConnected identities => identities.map BackendIdentity.snapName
  | .disconnected => []

def connectionKind (active : ActiveBackendState) (name : String) : ConnectionKind :=
  if (activeNames active).contains name then
    match active with
    | .multiplyConnected _ => .contested
    | _ => .active
  else .disconnected

namespace Inner

/-- `apply_discovery`: the state after it, and the events it gathers. -/
def applyDiscovery (inner : Inner S) (snapshot : ConnectionSnapshot) :
    Inner S × List ControllerEvent :=
  let discovered := snapshot.backends
  let active := snapshot.activeState
  let names := discovered.map BackendIdentity.snapName
  let removed := inner.removed names
  let inner := removed.foldl removePage inner
  let (inner, changed, events) := discoverAll discovered (inner, !removed.isEmpty, [])
  let reconnected := inner.pages.filterMap fun (name, entry) =>
    if entry.connection ≠ connectionKind active name then
      some (ControllerEvent.backendChanged entry.identity)
    else none
  let pages := Dict.mapVals
    (fun name entry => { entry with connection := connectionKind active name }) inner.pages
  ({ inner with order := names, pages, active },
    events ++ reconnected ++
      if changed || !reconnected.isEmpty then [.discoveryChanged] else [])

/-- Whether a discovery's answer is still wanted: none was begun after it, and it has not been
answered before. -/
def accepts (inner : Inner S) (request : DiscoveryRequest) : Bool :=
  !(request.generation ≤ inner.latestCompletedDiscovery ||
    request.generation ≠ inner.discoveryGeneration)

def completeDiscovery (inner : Inner S) (request : DiscoveryRequest)
    (result : Except BackendSurfaceError ConnectionSnapshot) :
    Bool × Inner S × List ControllerEvent :=
  if !inner.accepts request then (false, inner, [])
  else
    let inner := { inner with
      latestCompletedDiscovery := request.generation
      discoveryLoading := false
      discoveryToken := none }
    match result with
    | .ok snapshot =>
      let recovered := inner.lastDiscoveryError.isSome
      let (inner, events) := { inner with lastDiscoveryError := none }.applyDiscovery snapshot
      let announce := !request.quiet || recovered
      (true, inner, if announce && !events.contains .discoveryChanged then
        events ++ [.discoveryChanged] else events)
    | .error error =>
      let repeated := inner.lastDiscoveryError = some error
      (true, { inner with lastDiscoveryError := some error },
        if request.quiet && repeated then [] else [.discoveryFailed error])

/-! ## Reads of one backend -/

def beginSnapshot (inner : Inner S) (snap : String) :
    Option (SnapshotRequest × Inner S × List ControllerEvent) :=
  match inner.pages.get? snap with
  | none => none
  | some entry =>
    let token := inner.tokens.made
    some (⟨snap, entry.snapshotGeneration + 1, token⟩,
      { inner with
        pages := inner.pages.set snap { entry with
          snapshotGeneration := entry.snapshotGeneration + 1
          loading := true
          inflightToken := some token }
        tokens := (inner.tokens.cancel entry.inflightToken).next },
      [.backendChanged entry.identity])

def completeSnapshot (inner : Inner S) (request : SnapshotRequest) (snapshot : S) :
    Inner S × List ControllerEvent :=
  match inner.pages.get? request.snap with
  | none => (inner, [])
  | some entry =>
    if request.generation ≤ entry.latestCompletedSnapshot ∨
        request.generation ≠ entry.snapshotGeneration then (inner, [])
    else
      ({ inner with
        pages := inner.pages.set request.snap { entry with
          latestCompletedSnapshot := request.generation
          loading := false
          inflightToken := none
          snapshot := some snapshot } },
        [.backendChanged entry.identity])

def applyReadback (inner : Inner S) (snap : String) (snapshot : S) :
    Inner S × List ControllerEvent :=
  match inner.pages.get? snap with
  | none => (inner, [])
  | some entry =>
    ({ inner with
      pages := inner.pages.set snap { entry with
        inflightToken := none
        loading := false
        snapshot := some snapshot }
      tokens := inner.tokens.cancel entry.inflightToken },
      [.backendChanged entry.identity])

/-- `cancel_all`: every request under way. -/
def cancelAll (inner : Inner S) : Inner S :=
  let inflight := inner.pages.filterMap fun entry => entry.2.inflightToken
  { inner with
    discoveryToken := none
    discoveryLoading := false
    pages := Dict.mapVals (fun _ entry => entry.idle) inner.pages
    tokens :=
      { inner.tokens with
        cancelled := inner.tokens.cancelled ++ inner.discoveryToken.toList ++ inflight } }

def cancelPage (inner : Inner S) (snap : String) : Inner S :=
  match inner.pages.get? snap with
  | none => inner
  | some entry =>
    { inner with
      pages := inner.pages.set snap entry.idle
      tokens := inner.tokens.cancel entry.inflightToken }

/-! ## What a discovery leaves -/

/-- The identity on a snap's page. -/
def identityOf (inner : Inner S) (snap : String) : Option BackendIdentity :=
  (inner.pages.get? snap).map PageEntry.identity

theorem connectionSnapshot_eq (inner : Inner S) :
    inner.connectionSnapshot = ⟨inner.order.filterMap inner.identityOf, inner.active, []⟩ := rfl

theorem identityOf_discover (inner : Inner S) (identity : BackendIdentity) (snap : String) :
    (inner.discover identity).1.identityOf snap =
      if identity.snapName = snap then some identity else inner.identityOf snap := by
  unfold discover identityOf
  split
  · rename_i hnone
    dsimp only
    rw [Dict.get?_insertSorted hnone]
    split <;> rfl
  · rename_i entry hentry
    split
    · dsimp only
      rw [Dict.get?_set]
      split <;> rfl
    · rename_i heq
      split
      · rename_i hsnap
        rw [← hsnap, hentry]
        exact congrArg some (not_not.mp heq)
      · rfl

/-- The last of the backends of a snap. -/
def lastOf (backends : List BackendIdentity) (snap : String) : Option BackendIdentity :=
  (backends.filter fun backend => backend.snapName = snap).getLast?

/-- Of several slots of one snap, the page keeps the one discovered last. -/
theorem identityOf_discoverAll (discovered : List BackendIdentity)
    (state : Inner S × Bool × List ControllerEvent) (snap : String) :
    (discoverAll discovered state).1.identityOf snap =
      (lastOf discovered snap).or (state.1.identityOf snap) := by
  induction discovered generalizing state with
  | nil => rfl
  | cons identity rest ih =>
    obtain ⟨inner, changed, events⟩ := state
    rw [discoverAll, ih]
    dsimp only
    rw [identityOf_discover]
    unfold lastOf
    by_cases hsnap : identity.snapName = snap
    · rw [if_pos hsnap, List.filter_cons_of_pos (by simpa using hsnap), List.getLast?_cons]
      cases (rest.filter fun backend => backend.snapName = snap).getLast? <;> rfl
    · rw [if_neg hsnap, List.filter_cons_of_neg (by simpa using hsnap)]

theorem identityOf_applyDiscovery (inner : Inner S) (snapshot : ConnectionSnapshot)
    (snap : String) :
    ∃ before, (inner.applyDiscovery snapshot).1.identityOf snap =
      (lastOf snapshot.backends snap).or before := by
  refine ⟨_, Eq.trans ?_ (identityOf_discoverAll snapshot.backends
    ((inner.removed (snapshot.backends.map BackendIdentity.snapName)).foldl removePage inner,
      !(inner.removed (snapshot.backends.map BackendIdentity.snapName)).isEmpty, []) snap)⟩
  unfold applyDiscovery identityOf
  dsimp only
  rw [Dict.get?_mapVals, Option.map_map]
  rfl

theorem lastOf_isSome {backends : List BackendIdentity} {backend : BackendIdentity}
    (h : backend ∈ backends) : ∃ last, lastOf backends backend.snapName = some last ∧
      last ∈ backends ∧ last.snapName = backend.snapName := by
  have hmem : backend ∈ backends.filter fun other => other.snapName = backend.snapName := by
    simpa using h
  have hlast := List.getLast?_eq_some_getLast (List.ne_nil_of_mem hmem)
  have hlast_mem := List.getLast_mem (List.ne_nil_of_mem hmem)
  rw [List.mem_filter] at hlast_mem
  exact ⟨_, hlast, hlast_mem.1, by simpa using hlast_mem.2⟩

/-- No two models of a snapshot are slots of one snap. -/
def OnePerSnap (backends : List BackendIdentity) : Prop :=
  ∀ a ∈ backends, ∀ b ∈ backends, a.snapName = b.snapName → a = b

instance (backends : List BackendIdentity) : Decidable (OnePerSnap backends) := by
  unfold OnePerSnap
  infer_instance

/-- The pages of a discovery are its backends, where each is the last of its snap. -/
theorem connectionSnapshot_applyDiscovery (inner : Inner S) (snapshot : ConnectionSnapshot) :
    (inner.applyDiscovery snapshot).1.connectionSnapshot =
      ⟨snapshot.backends.map fun backend =>
          (lastOf snapshot.backends backend.snapName).getD backend,
        snapshot.activeState, []⟩ := by
  rw [connectionSnapshot_eq]
  show (⟨(snapshot.backends.map BackendIdentity.snapName).filterMap _, snapshot.activeState, []⟩ :
    ConnectionSnapshot) = _
  congr 1
  rw [List.filterMap_map, ← List.filterMap_eq_map]
  refine List.filterMap_congr fun backend hmem => ?_
  obtain ⟨last, hlast, -⟩ := lastOf_isSome hmem
  obtain ⟨before, hidentity⟩ := identityOf_applyDiscovery inner snapshot backend.snapName
  show (inner.applyDiscovery snapshot).1.identityOf backend.snapName = some _
  rw [hidentity, hlast, Option.some_or]
  dsimp only
  rw [hlast]
  rfl

theorem map_lastOf_eq_iff {backends : List BackendIdentity} :
    (backends.map fun backend => (lastOf backends backend.snapName).getD backend) = backends ↔
      OnePerSnap backends := by
  have hid := List.map_inj_left (l := backends) (g := id)
    (f := fun backend => (lastOf backends backend.snapName).getD backend)
  rw [List.map_id] at hid
  rw [hid]
  constructor
  · intro h a ha b hb hsnap
    obtain ⟨last, hlast, -⟩ := lastOf_isSome ha
    have hla := h a ha
    have hlb := h b hb
    rw [hlast] at hla
    rw [← hsnap, hlast] at hlb
    exact hla.symm.trans hlb
  · intro h backend hmem
    obtain ⟨last, hlast, hlast_mem, hsnap⟩ := lastOf_isSome hmem
    rw [hlast]
    exact h last hlast_mem backend hmem hsnap

/-- A discovery that is accepted is applied to the state it is completed in. -/
theorem completeDiscovery_ok {inner after : Inner S} {request : DiscoveryRequest}
    {snapshot : ConnectionSnapshot} {events : List ControllerEvent}
    (h : inner.completeDiscovery request (.ok snapshot) = (true, after, events)) :
    after = (Inner.applyDiscovery
      { inner with
        latestCompletedDiscovery := request.generation
        discoveryLoading := false
        discoveryToken := none
        lastDiscoveryError := none } snapshot).1 := by
  unfold completeDiscovery at h
  split at h
  · cases h
  · exact (congrArg (fun result => result.2.1) h).symm

end Inner

/-! ## The page and the connections -/

/-- A switch planned from `shown` is refused as stale only after a read that is not `read`. -/
def StaleOnlyOnChange (shown read : ConnectionSnapshot) : Prop :=
  ∀ (σ : Type) (ports : Ports σ) (run : SwitchRun σ) (selected : BackendIdentity)
    (plan : SwitchPlan) (preflight : ConnectionSnapshot),
    SwitchPlan.new shown selected = .ok plan →
      (executeSwitch ports plan run).1 = .staleDiscovery preflight → preflight ≠ read

/-- What a page shows as it was read makes no switch stale by itself. -/
theorem staleOnlyOnChange_self (read : ConnectionSnapshot) : StaleOnlyOnChange read read := by
  intro σ ports run selected plan preflight hplan hstale
  obtain ⟨hoffered, hbaseline, hselected, -⟩ := SwitchPlan.new_eq_ok hplan
  obtain ⟨-, hchanged⟩ := executeSwitch_stale hstale
  rintro rfl
  rcases hchanged with hne | hgone
  · exact hne hbaseline.symm
  · rw [hselected] at hgone
    exact hgone hoffered

/-- **The page shows what discovery read exactly** where nothing but models feeds Myna, and no snap
has two of them. -/
theorem shows_iff (inner after : Inner S) (request : DiscoveryRequest)
    (connections : ContentConnections) (events : List ControllerEvent)
    (h : inner.completeDiscovery request (.ok (connectionSnapshot connections)) =
      (true, after, events)) :
    (after.connectionSnapshot = connectionSnapshot connections ∧
        StaleOnlyOnChange after.connectionSnapshot (connectionSnapshot connections)) ↔
      (connectionSnapshot connections).strays = [] ∧
        Inner.OnePerSnap (connectionSnapshot connections).backends := by
  obtain rfl := Inner.completeDiscovery_ok h
  rw [Inner.connectionSnapshot_applyDiscovery, ← Inner.map_lastOf_eq_iff]
  generalize connectionSnapshot connections = read
  obtain ⟨backends, activeState, strays⟩ := read
  constructor
  · rintro ⟨hshown, -⟩
    injection hshown with hbackends _ hstrays
    exact ⟨hstrays.symm, hbackends⟩
  · rintro ⟨hstrays, hbackends⟩
    dsimp only at hstrays hbackends ⊢
    rw [hbackends, hstrays]
    exact ⟨rfl, staleOnlyOnChange_self _⟩

/-- What a new controller makes of its first discovery, which snapd answers with `discovered`. -/
def firstDiscovery (discovered : ContentConnections) : Bool × Inner Unit × List ControllerEvent :=
  let (request, inner) := Inner.beginDiscovery {} 0 false
  inner.completeDiscovery request (.ok (connectionSnapshot discovered))

/-- The provider of a snap, and whether it feeds Myna. -/
def providerSlot (snap : String) (feeds : Bool) : ContentSlot :=
  { snap, slot := "provider", attrs := [("content", .str PROVIDER_CONTENT_ID)]
    connections := if feeds then [⟨"myna", "backend"⟩] else [] }

/-- Two models, one of which feeds Myna. -/
def twoModels : ContentConnections :=
  ⟨[providerSlot "myna-whisper" true, providerSlot "myna-parakeet" false]⟩

theorem twoModels_shown :
    (firstDiscovery twoModels).2.1.connectionSnapshot = connectionSnapshot twoModels ∧
      StaleOnlyOnChange (firstDiscovery twoModels).2.1.connectionSnapshot
        (connectionSnapshot twoModels) :=
  (shows_iff (Inner.beginDiscovery {} 0 false).2 (firstDiscovery twoModels).2.1
    (Inner.beginDiscovery {} 0 false).1 twoModels (firstDiscovery twoModels).2.2
    (Prod.ext (by decide +kernel) rfl)).mpr (by decide +kernel)

/-- The same, with an LLM's provider that feeds Myna beside the model. -/
def modelsAndStray : ContentConnections :=
  ⟨providerSlot "gemma4" true :: twoModels.slots⟩

/-- The connections do not change, and the switch to the other model is stale all the same. -/
theorem modelsAndStray_stale :
    (firstDiscovery modelsAndStray).1 = true ∧
      (firstDiscovery modelsAndStray).2.1.connectionSnapshot ≠ connectionSnapshot modelsAndStray ∧
      ¬ StaleOnlyOnChange (firstDiscovery modelsAndStray).2.1.connectionSnapshot
        (connectionSnapshot modelsAndStray) := by
  have hne : (firstDiscovery modelsAndStray).2.1.connectionSnapshot ≠
      connectionSnapshot modelsAndStray := by decide +kernel
  refine ⟨by decide +kernel, hne, fun h => ?_⟩
  obtain ⟨plan, hplan⟩ := SwitchPlan.exists_new
    (show BackendIdentity.new "myna-parakeet" "provider" ∈
      (firstDiscovery modelsAndStray).2.1.connectionSnapshot.backends by decide +kernel)
  have hbaseline := (SwitchPlan.new_eq_ok hplan).2.1
  -- snapd answers every read alike
  let ports : Ports Unit :=
    ⟨fun _ => (.ok (connectionSnapshot modelsAndStray), ()), fun _ => (.ok [], ()),
      fun _ _ _ => (.ok [], ()), fun _ => false⟩
  have hstale : (executeSwitch ports plan ⟨(), []⟩).1 =
      .staleDiscovery (connectionSnapshot modelsAndStray) :=
    executeSwitch_eq_stale rfl (hbaseline ▸ hne.symm)
  exact h Unit ports ⟨(), []⟩ _ plan _ hplan hstale rfl

end Config

end Myna

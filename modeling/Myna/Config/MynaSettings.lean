import Mathlib.Data.List.Nodup
import Mathlib.Data.List.Perm.Basic
import Mathlib.Logic.Basic

/-!
# Myna — one row of the settings page (`myna_config::myna_settings`)

A set shows at once and is pending until a writer has put it into the store. The store notifies the
page of every change, the page's own included, which it takes for the echo of a write by its value.

* **`World.step`** — a set, the writer, the main loop, another process or the store goes on;
* **`row_shows_store`** — what the row shows once everything is done, and what is reported.
-/

namespace Myna

namespace Config

namespace MynaSettings

/-! ## The page and its writer -/

structure Row (V : Type*) where
  value : V
  pending : Bool := false
deriving DecidableEq

structure PersistenceGate (V : Type*) where
  revision : ℕ
  persisted : V
deriving DecidableEq

structure PersistenceRequest (V : Type*) where
  revision : ℕ
  requested : V
deriving DecidableEq

inductive PersistenceResult
  | written
  | superseded
  | failed
deriving DecidableEq

/-- What has become of the user's latest set: whether its write failed, whether its result has been
applied, and whether an external change was reported since, before the result and before the
write. -/
structure Latest where
  revision : ℕ
  failed : Bool := false
  completed : Bool := false
  reported : Bool := false
  reportedBeforeWrite : Bool := false
deriving DecidableEq

/-- The request of the latest set has been persisted, or not. -/
def Latest.persisted (latest : Latest) (revision : ℕ) (failed : Bool) : Latest :=
  if latest.revision = revision then
    { latest with failed, reportedBeforeWrite := latest.reported }
  else latest

def Latest.complete (latest : Latest) (revision : ℕ) : Latest :=
  if latest.revision = revision then { latest with completed := true } else latest

/-- The store (`isExternal`: its value is that of another process; `outstanding` changes have not
been reported), the page, what its writer has still to write, and the results it has still to
apply. `lastWrite` is the page's last write, and `saveFailed` tells which sets it gave up. -/
structure World (V : Type*) where
  store : V
  isExternal : Bool := false
  lastReported : V
  outstanding : ℕ := 0
  row : Row V
  gate : Option (PersistenceGate V) := none
  observedEcho : Option ℕ := none
  expectedEchoes : List V := []
  queue : List (PersistenceRequest V) := []
  results : List (PersistenceRequest V × PersistenceResult) := []
  latest : Option Latest := none
  lastWrite : Option ℕ := none
  saveFailed : List ℕ := []

/-- `complete` applies the `i`th of the results; `coalesce` and `drop` are what the store does not
report: one change for several, and a change back to what it reported last. -/
inductive Event (V : Type*)
  | set (value : V)
  | persist (ok : Bool)
  | complete (i : ℕ)
  | writeExternal (value : V)
  | notify
  | coalesce
  | drop
deriving DecidableEq

/-- The page as it is loaded. -/
def load {V : Type*} (value : V) : World V where
  store := value
  lastReported := value
  row := { value }

variable {V : Type*}

namespace World

def revision (w : World V) : ℕ := w.gate.elim 0 (·.revision)

/-- What the gate has, or is to have once there is one. -/
def persisted (w : World V) : V := w.gate.elim w.row.value (·.persisted)

def nextRevision (w : World V) : World V :=
  { w with gate := some ⟨w.revision + 1, w.persisted⟩ }

def set (w : World V) (value : V) : World V :=
  let w := w.nextRevision
  { w with
    row := { value, pending := true }
    queue := w.queue ++ [⟨w.revision, value⟩]
    latest := some { revision := w.revision } }

section

variable [DecidableEq V]

/-- `ClientSettings::set`; to write what is there already changes nothing. -/
def write (w : World V) (value : V) (isExternal : Bool) : World V :=
  if value = w.store then w
  else { w with store := value, isExternal, outstanding := w.outstanding + 1 }

/-- `PersistenceRequest::persist`. -/
def persist (w : World V) (request : PersistenceRequest V) (ok : Bool) :
    World V × PersistenceResult :=
  if w.revision ≠ request.revision then (w, .superseded)
  else if ok then
    ({ w.write request.requested false with
        gate := w.gate.map fun gate => { gate with persisted := request.requested }
        lastWrite := some request.revision }, .written)
  else (w, .failed)

/-- The part of `complete` that looks at echoes. -/
def expectEcho (w : World V) (request : PersistenceRequest V) (result : PersistenceResult) :
    World V :=
  match result with
  | .written =>
    let current := w.revision
    let newerLocalSave := current ≠ request.revision && w.row.pending
    if current = request.revision || newerLocalSave then
      { w with
        observedEcho := none
        expectedEchoes :=
          if w.observedEcho ≠ some request.revision then w.expectedEchoes ++ [request.requested]
          else w.expectedEchoes }
    else w
  | _ => w

def complete (w : World V) (request : PersistenceRequest V) (result : PersistenceResult) :
    World V :=
  let w := w.expectEcho request result
  if w.revision ≠ request.revision then w
  else
    match result with
    | .written => { w with row := { value := request.requested } }
    | .superseded => w
    | .failed =>
      { w with
        row := { value := w.persisted }
        saveFailed := w.saveFailed ++ [request.revision] }

/-- What a notification is taken for. -/
inductive Taken
  | expected
  | observed
  | external
deriving DecidableEq

def takes (w : World V) (value : V) : Taken :=
  if value ∈ w.expectedEchoes then .expected
  else if w.row.pending && w.row.value = value then .observed
  else .external

def applyExternal (w : World V) (value : V) : World V :=
  match w.takes value with
  | .expected => { w with expectedEchoes := w.expectedEchoes.erase value }
  | .observed => { w with observedEcho := some w.revision }
  | .external =>
    { w with
      gate := some ⟨w.revision + 1, value⟩
      row := { value } }

/-- The store reports its value. -/
def report (w : World V) : World V :=
  { w with
    outstanding := w.outstanding - 1
    lastReported := w.store
    latest := w.latest.map fun latest =>
      { latest with reported := latest.reported || (w.isExternal && !latest.completed) } }

def step (w : World V) : Event V → Option (World V)
  | .set value => some (w.set value)
  | .persist ok =>
    match w.queue with
    | request :: queue =>
      let (written, result) := w.persist request ok
      some { written with
        queue
        results := w.results ++ [(request, result)]
        latest := w.latest.map (Latest.persisted · request.revision (result = .failed)) }
    | [] => none
  | .complete i =>
    match w.results[i]? with
    | some (request, result) =>
      some { w.complete request result with
        results := w.results.eraseIdx i
        latest := w.latest.map (Latest.complete · request.revision) }
    | none => none
  | .writeExternal value => some (w.write value true)
  | .notify => if 0 < w.outstanding then some (w.report.applyExternal w.store) else none
  | .coalesce =>
    if 1 < w.outstanding then some { w with outstanding := w.outstanding - 1 } else none
  | .drop =>
    if 0 < w.outstanding ∧ w.store = w.lastReported then
      some { w with outstanding := w.outstanding - 1 }
    else none

/-- A run, each of whose steps is one that `may` allows. -/
def run (may : World V → Event V → Bool) (w : World V) (events : List (Event V)) :
    Option (World V) :=
  events.foldlM (fun w e => if may w e then w.step e else none) w

end

/-- Every request has been completed, and every change reported. -/
def Quiescent (w : World V) : Prop := w.queue = [] ∧ w.results = [] ∧ w.outstanding = 0

end World

/-! ## What the page owes to the user -/

/-- The settings page shows what the store holds. -/
structure Shows (w : World V) : Prop where
  row : w.row = { value := w.store }
  /-- The last write is that of the latest set, unless that failed or an external change was
  reported before it. -/
  written : ∀ latest, w.latest = some latest →
    w.lastWrite = some latest.revision ∨ latest.failed ∨ latest.reportedBeforeWrite

/-- A step gives a set up exactly if it applies the result of the latest one, whose write failed and
since which no external change was reported. -/
structure GivesUp (w : World V) (e : Event V) (w' : World V) : Prop where
  emits : ∀ revision, w'.saveFailed = w.saveFailed ++ [revision] ↔
    ∃ i request latest, e = .complete i ∧ w.results[i]? = some (request, .failed) ∧
      request.revision = revision ∧ w.latest = some latest ∧ latest.revision = revision ∧
      latest.reported = false
  only : w'.saveFailed = w.saveFailed ∨ ∃ revision, w'.saveFailed = w.saveFailed ++ [revision]

section

variable [DecidableEq V]

/-- The save that is pending has been written. -/
def World.saved (w : World V) : Bool :=
  !w.row.pending || w.results.any fun (request, result) =>
    request.revision = w.revision && result = .written

/-- A change by another process is taken for an echo only of what the page has in the store anyway;
one of the page's own is not taken for another's while a save is pending; and a change back goes
unreported only where it is to what the page wrote, or heard of, last. -/
def meets (w : World V) : Event V → Bool
  | .notify =>
    match w.isExternal, w.takes w.store with
    | true, .expected | true, .observed => w.persisted = w.store && w.saved
    | false, .external => !w.row.pending
    | _, _ => true
  | .drop => 1 < w.outstanding || w.persisted = w.store
  | _ => true

end

/-! ## The invariant -/

/-- The requests that have not been completed. -/
def World.inFlight (w : World V) : List (PersistenceRequest V) :=
  w.queue ++ w.results.map Prod.fst

/-- What the row shows, what the gate has, and what the store holds. -/
structure Inv (w : World V) : Prop where
  own : w.isExternal = false → w.persisted = w.store
  due : w.persisted = w.store ∨ 0 < w.outstanding
  shown : w.row.pending = false → w.row.value = w.persisted
  idle : w.row.pending = false → ∀ request ∈ w.inFlight, request.revision ≠ w.revision
  pending : w.row.pending → ∃ request ∈ w.inFlight, request.revision = w.revision
  nodup : (w.inFlight.map (·.revision)).Nodup
  revision : ∀ request ∈ w.inFlight, 0 < request.revision ∧ request.revision ≤ w.revision
  written : ∀ request, (request, .written) ∈ w.results → request.revision = w.revision →
    w.persisted = request.requested
  superseded : ∀ request, (request, .superseded) ∈ w.results → request.revision ≠ w.revision

/-- What has become of the latest set. -/
structure LatestInv (w : World V) (latest : Latest) : Prop where
  revision : latest.revision ≤ w.revision
  last : ∀ request ∈ w.inFlight, request.revision ≤ latest.revision
  completed : latest.completed = false ↔ latest.revision ∈ w.inFlight.map (·.revision)
  queue : ∀ request ∈ w.queue.getLast?, request.revision = latest.revision
  /-- It is superseded only where an external change was reported. -/
  current : latest.completed = false → latest.revision = w.revision ∨ latest.reported
  reported : latest.completed = false → latest.reported → latest.revision ≠ w.revision ∨
    ∃ request, (request, .written) ∈ w.results ∧ request.revision = latest.revision
  wrote : w.queue = [] →
    w.lastWrite = some latest.revision ∨ latest.failed ∨ latest.reportedBeforeWrite

theorem inv_load (value : V) : Inv (load value) :=
  ⟨fun _ => rfl, .inl rfl, fun _ => rfl, nofun, nofun, List.nodup_nil, nofun, nofun, nofun⟩

variable {w w' : World V}

theorem Inv.shows (h : Inv w) (hlatest : ∀ latest, w.latest = some latest → LatestInv w latest)
    (hquiescent : w.Quiescent) : Shows w := by
  obtain ⟨hqueue, hresults, houtstanding⟩ := hquiescent
  have hnone : w.inFlight = [] := by simp [World.inFlight, hqueue, hresults]
  have hpending : w.row.pending = false := by
    rw [← Bool.not_eq_true]
    intro hpending
    obtain ⟨request, hrequest, -⟩ := h.pending hpending
    rw [hnone] at hrequest
    cases hrequest
  have hvalue : w.row.value = w.store := by
    rw [h.shown hpending]
    exact h.due.resolve_right (by simp [houtstanding])
  refine ⟨?_, fun latest hsome => (hlatest latest hsome).wrote hqueue⟩
  cases hrow : w.row with
  | mk value pending =>
    rw [hrow] at hpending hvalue
    rw [show value = w.store from hvalue, show pending = false from hpending]

/-! ## Sets -/

@[simp] theorem set_revision (w : World V) (value : V) :
    (w.set value).revision = w.revision + 1 := rfl

@[simp] theorem set_persisted (w : World V) (value : V) :
    (w.set value).persisted = w.persisted := rfl

theorem mem_inFlight_set {value : V} {request : PersistenceRequest V} :
    request ∈ (w.set value).inFlight ↔
      request ∈ w.inFlight ∨ request = ⟨w.revision + 1, value⟩ := by
  simp only [World.inFlight, World.set, World.nextRevision, List.mem_append, List.mem_singleton]
  constructor
  · rintro ((hqueue | rfl) | hresults)
    · exact .inl (.inl hqueue)
    · exact .inr rfl
    · exact .inl (.inr hresults)
  · rintro ((hqueue | hresults) | rfl)
    · exact .inl (.inl hqueue)
    · exact .inr hresults
    · exact .inl (.inr rfl)

theorem inFlight_set_perm (w : World V) (value : V) :
    (w.set value).inFlight.Perm (⟨w.revision + 1, value⟩ :: w.inFlight) := by
  simp only [World.inFlight, World.set, World.nextRevision]
  rw [List.append_assoc]
  exact List.perm_middle

theorem Inv.set (h : Inv w) (value : V) : Inv (w.set value) := by
  have hfresh : ∀ request ∈ w.inFlight, request.revision ≠ w.revision + 1 := by
    intro request hrequest
    have := (h.revision request hrequest).2
    omega
  have hresult : ∀ {request result}, (request, result) ∈ w.results → request ∈ w.inFlight :=
    fun hmem => List.mem_append_right _ (List.mem_map_of_mem hmem)
  refine ⟨h.own, h.due, nofun, nofun, fun _ => ?_, ?_, ?_, ?_, ?_⟩
  · exact ⟨_, mem_inFlight_set.mpr (.inr rfl), rfl⟩
  · rw [((inFlight_set_perm w value).map _).nodup_iff, List.map_cons, List.nodup_cons]
    refine ⟨?_, h.nodup⟩
    intro hmem
    obtain ⟨request, hrequest, heq⟩ := List.mem_map.mp hmem
    exact hfresh request hrequest heq
  · intro request hrequest
    rw [set_revision]
    rcases mem_inFlight_set.mp hrequest with hrequest | rfl
    · have := h.revision request hrequest
      omega
    · exact ⟨Nat.succ_pos _, Nat.le_refl _⟩
  · exact fun request hmem heq => absurd heq (hfresh request (hresult hmem))
  · exact fun request hmem => hfresh request (hresult hmem)

theorem LatestInv.set (h : Inv w) (value : V) :
    LatestInv (w.set value) { revision := w.revision + 1 } := by
  refine ⟨Nat.le_refl _, ?_, ?_, ?_, fun _ => .inl rfl, nofun, ?_⟩
  · intro request hrequest
    show request.revision ≤ w.revision + 1
    rcases mem_inFlight_set.mp hrequest with hrequest | rfl
    · have := (h.revision request hrequest).2
      omega
    · exact Nat.le_refl _
  · refine ⟨fun _ => ?_, fun _ => rfl⟩
    exact List.mem_map.mpr ⟨_, mem_inFlight_set.mpr (.inr rfl), rfl⟩
  · intro request hlast
    have hpush : (w.set value).queue = w.queue ++ [⟨w.revision + 1, value⟩] := rfl
    rw [hpush, List.getLast?_concat] at hlast
    obtain rfl := Option.some.inj hlast
    rfl
  · intro hnone
    exact absurd hnone (by simp [World.set])

/-! ## The writer -/

/-- The head of the queue goes over to the results. -/
theorem inFlight_persist_perm {request : PersistenceRequest V} {queue}
    (hqueue : w.queue = request :: queue) (result : PersistenceResult) :
    (queue ++ (w.results ++ [(request, result)]).map Prod.fst).Perm w.inFlight := by
  rw [World.inFlight, hqueue, List.map_append, List.map_singleton, ← List.append_assoc]
  exact List.perm_append_singleton _ _

theorem mem_results_push {request other : PersistenceRequest V} {result result' : PersistenceResult}
    (hmem : (other, result') ∈ w.results ++ [(request, result)]) :
    (other, result') ∈ w.results ∨ other = request ∧ result' = result := by
  rcases List.mem_append.mp hmem with hmem | hmem
  · exact .inl hmem
  · exact .inr (Prod.mk.inj (List.mem_singleton.mp hmem))

section

variable [DecidableEq V]

theorem write_eq (w : World V) (value : V) (isExternal : Bool) :
    ∃ outstanding isExternal', w.write value isExternal =
      { w with store := value, isExternal := isExternal', outstanding } ∧
        (value ≠ w.store → isExternal' = isExternal ∧ 0 < outstanding) ∧
        (value = w.store → isExternal' = w.isExternal ∧ outstanding = w.outstanding) := by
  unfold World.write
  split
  · rename_i heq
    exact ⟨w.outstanding, w.isExternal, by rw [heq], fun hne => absurd heq hne, fun _ => ⟨rfl, rfl⟩⟩
  · rename_i hne
    exact ⟨w.outstanding + 1, isExternal, rfl, fun _ => ⟨rfl, Nat.succ_pos _⟩,
      fun heq => absurd heq hne⟩

theorem Inv.writeExternal (h : Inv w) (value : V) : Inv (w.write value true) := by
  obtain ⟨outstanding, isExternal, heq, hchanged, hsame⟩ := write_eq w value true
  rw [heq]
  refine ⟨fun hown => ?_, ?_, h.shown, h.idle, h.pending, h.nodup, h.revision, h.written,
    h.superseded⟩
  · by_cases hvalue : value = w.store
    · rw [(hsame hvalue).1] at hown
      exact (h.own hown).trans hvalue.symm
    · rw [(hchanged hvalue).1] at hown
      cases hown
  · by_cases hvalue : value = w.store
    · rw [(hsame hvalue).2]
      exact h.due.imp_left fun hdue => hdue.trans hvalue.symm
    · exact .inr (hchanged hvalue).2

/-- What `persist` does to the store and the gate. -/
theorem persist_cases (w : World V) (request : PersistenceRequest V) (ok : Bool) :
    (∃ result, w.persist request ok = (w, result) ∧ result ≠ .written ∧
      (result = .superseded ↔ w.revision ≠ request.revision)) ∨
    (w.revision = request.revision ∧ w.persist request ok =
      ({ w.write request.requested false with
          gate := w.gate.map fun gate => { gate with persisted := request.requested }
          lastWrite := some request.revision }, .written)) := by
  unfold World.persist
  by_cases hrevision : w.revision = request.revision
  · cases ok with
    | false => exact .inl ⟨.failed, by simp [hrevision], nofun, by simp [hrevision]⟩
    | true => exact .inr ⟨hrevision, by simp [hrevision]⟩
  · exact .inl ⟨.superseded, if_pos hrevision, nofun, by simp [hrevision]⟩

omit [DecidableEq V] in
theorem Inv.exists_gate (h : Inv w) {request : PersistenceRequest V}
    (hrequest : request ∈ w.inFlight) : ∃ gate, w.gate = some gate := by
  cases hgate : w.gate with
  | some gate => exact ⟨gate, rfl⟩
  | none =>
    obtain ⟨hpos, hle⟩ := h.revision request hrequest
    rw [World.revision, hgate] at hle
    exact absurd hle (Nat.not_le_of_lt hpos)

/-- A request is persisted: its result waits to be applied. -/
theorem Inv.persist (h : Inv w) {request : PersistenceRequest V} {queue}
    (hqueue : w.queue = request :: queue) (ok : Bool) (latest : Option Latest) :
    Inv { (w.persist request ok).1 with
      queue
      results := w.results ++ [(request, (w.persist request ok).2)]
      latest } := by
  have hhead : request ∈ w.inFlight := by simp [World.inFlight, hqueue]
  have hperm := inFlight_persist_perm hqueue
  have hnodup : ∀ result, ((queue ++ (w.results ++ [(request, result)]).map Prod.fst).map
      (·.revision)).Nodup := fun result => ((hperm result).map _).nodup_iff.mpr h.nodup
  obtain ⟨result, heq, hresult, hsuperseded⟩ | ⟨hrevision, heq⟩ := persist_cases w request ok
  · rw [heq]
    refine ⟨h.own, h.due, h.shown, ?_, ?_, hnodup _, ?_, ?_, ?_⟩
    · exact fun hpending r hr => h.idle hpending r ((hperm _).mem_iff.mp hr)
    · intro hpending
      obtain ⟨r, hr, hcurrent⟩ := h.pending hpending
      exact ⟨r, (hperm _).mem_iff.mpr hr, hcurrent⟩
    · exact fun r hr => h.revision r ((hperm _).mem_iff.mp hr)
    · intro r hr hcurrent
      rcases mem_results_push hr with hr | ⟨-, rfl⟩
      · exact h.written r hr hcurrent
      · exact absurd rfl hresult
    · intro r hr
      rcases mem_results_push hr with hr | ⟨rfl, rfl⟩
      · exact h.superseded r hr
      · exact (hsuperseded.mp rfl).symm
  · -- the request is that of the save that is pending
    have hpending : w.row.pending = true := by
      rw [← Bool.not_eq_false]
      exact fun hidle => h.idle hidle request hhead hrevision.symm
    obtain ⟨gate, hgate⟩ := h.exists_gate hhead
    obtain ⟨outstanding, isExternal, hwrite, -, -⟩ := write_eq w request.requested false
    rw [heq, hwrite, hgate]
    have hcurrent : gate.revision = w.revision := by rw [World.revision, hgate]; rfl
    refine ⟨fun _ => rfl, .inl rfl, ?_, ?_, ?_, hnodup _, ?_, ?_, ?_⟩
    · exact fun hidle => absurd hpending (by simp [show w.row.pending = false from hidle])
    · exact fun hidle => absurd hpending (by simp [show w.row.pending = false from hidle])
    · exact fun _ => ⟨request, (hperm _).mem_iff.mpr hhead, hrevision.symm.trans hcurrent.symm⟩
    · intro r hr
      show 0 < r.revision ∧ r.revision ≤ gate.revision
      rw [hcurrent]
      exact h.revision r ((hperm _).mem_iff.mp hr)
    · intro r hr hr'
      show request.requested = r.requested
      have hboth : r.revision = request.revision := hr'.trans (hcurrent.trans hrevision)
      have hrequest := (hperm PersistenceResult.written).mem_iff.mpr hhead
      have hmem : r ∈ queue ++ (w.results ++ [(request, PersistenceResult.written)]).map Prod.fst :=
        List.mem_append_right _ (List.mem_map_of_mem hr)
      rw [List.inj_on_of_nodup_map (hnodup _) hmem hrequest hboth]
    · intro r hr
      show r.revision ≠ gate.revision
      rw [hcurrent]
      rcases mem_results_push hr with hr | ⟨-, hresult⟩
      · exact h.superseded r hr
      · cases hresult

theorem persist_revision (w : World V) (request : PersistenceRequest V) (ok : Bool) :
    (w.persist request ok).1.revision = w.revision := by
  obtain ⟨result, heq, -⟩ | ⟨-, heq⟩ := persist_cases w request ok
  · rw [heq]
  · obtain ⟨outstanding, isExternal, hwrite, -, -⟩ := write_eq w request.requested false
    rw [heq, hwrite]
    cases hgate : w.gate <;> simp [World.revision, hgate]

theorem persisted_fields (latest : Latest) (revision : ℕ) (failed : Bool) :
    (latest.persisted revision failed).revision = latest.revision ∧
      (latest.persisted revision failed).completed = latest.completed ∧
      (latest.persisted revision failed).reported = latest.reported := by
  unfold Latest.persisted
  split <;> exact ⟨rfl, rfl, rfl⟩

/-- The latest set's request is the last of the queue, or has left it. -/
theorem LatestInv.persist {latest : Latest} (h : LatestInv w latest)
    {request : PersistenceRequest V} {queue} (hqueue : w.queue = request :: queue) (ok : Bool)
    (latest' : Option Latest) :
    LatestInv { (w.persist request ok).1 with
        queue
        results := w.results ++ [(request, (w.persist request ok).2)]
        latest := latest' }
      (latest.persisted request.revision ((w.persist request ok).2 = .failed)) := by
  have hrevision := persist_revision w request ok
  have hperm := inFlight_persist_perm hqueue (w.persist request ok).2
  obtain ⟨hsame, hcompleted, hreported⟩ :=
    persisted_fields latest request.revision ((w.persist request ok).2 = .failed)
  refine ⟨?_, ?_, ?_, ?_, ?_, ?_, ?_⟩
  · rw [hsame]
    exact Nat.le_trans h.revision (Nat.le_of_eq hrevision.symm)
  · intro r hr
    rw [hsame]
    exact h.last r (hperm.mem_iff.mp hr)
  · rw [hcompleted, hsame, h.completed]
    exact ((hperm.map _).mem_iff).symm
  · intro r hr
    rw [hsame]
    refine h.queue r ?_
    rw [hqueue]
    cases queue with
    | nil => cases hr
    | cons next rest =>
      rw [List.getLast?_cons_cons]
      exact hr
  · rw [hcompleted, hsame, hreported]
    intro hopen
    exact (h.current hopen).imp_left fun hcurrent => hcurrent.trans hrevision.symm
  · rw [hcompleted, hsame, hreported]
    intro hopen hexternal
    refine (h.reported hopen hexternal).imp ?_ ?_
    · exact fun hne hcurrent => hne (hcurrent.trans hrevision)
    · rintro ⟨r, hr, hcurrent⟩
      exact ⟨r, List.mem_append_left _ hr, hcurrent⟩
  · intro hnone
    have hlast : request.revision = latest.revision := by
      refine h.queue request ?_
      rw [hqueue, show queue = [] from hnone]
      rfl
    rw [hsame]
    obtain ⟨result, heq, hresult, hsuperseded⟩ | ⟨-, heq⟩ := persist_cases w request ok
    · rw [heq]
      cases result with
      | written => exact absurd rfl hresult
      | failed =>
        refine .inr (.inl ?_)
        simp [Latest.persisted, hlast]
      | superseded =>
        have hopen : latest.completed = false := by
          refine h.completed.mpr (List.mem_map.mpr ⟨request, ?_, hlast⟩)
          simp [World.inFlight, hqueue]
        have hexternal : latest.reported = true := by
          refine (h.current hopen).resolve_left fun hcurrent => ?_
          exact hsuperseded.mp rfl (hcurrent.symm.trans hlast.symm)
        refine .inr (.inr ?_)
        simp [Latest.persisted, hlast, hexternal]
    · rw [heq]
      exact .inl (congrArg some hlast)

end

/-! ## The main loop -/

/-- A result has been applied. -/
theorem inFlight_complete_perm {i : ℕ} {request : PersistenceRequest V} {result : PersistenceResult}
    (hi : w.results[i]? = some (request, result)) :
    (request :: (w.queue ++ (w.results.eraseIdx i).map Prod.fst)).Perm w.inFlight := by
  obtain ⟨hlt, heq⟩ := List.getElem?_eq_some_iff.mp hi
  have hperm := (List.getElem_cons_eraseIdx_perm hlt).map Prod.fst
  rw [heq, List.map_cons] at hperm
  exact List.perm_middle.symm.trans (hperm.append_left w.queue)

theorem complete_eq (w : World V) (request : PersistenceRequest V) (result : PersistenceResult) :
    ∃ observedEcho expectedEchoes,
      w.complete request result =
        if w.revision ≠ request.revision then { w with observedEcho, expectedEchoes }
        else
          match result with
          | .written =>
            { w with observedEcho, expectedEchoes, row := { value := request.requested } }
          | .superseded => { w with observedEcho, expectedEchoes }
          | .failed =>
            { w with
              observedEcho
              expectedEchoes
              row := { value := w.persisted }
              saveFailed := w.saveFailed ++ [request.revision] } := by
  have hecho : ∃ observedEcho expectedEchoes,
      w.expectEcho request result = { w with observedEcho, expectedEchoes } := by
    unfold World.expectEcho
    split
    · dsimp only
      split
      · exact ⟨_, _, rfl⟩
      · exact ⟨w.observedEcho, w.expectedEchoes, rfl⟩
    · exact ⟨w.observedEcho, w.expectedEchoes, rfl⟩
  obtain ⟨observedEcho, expectedEchoes, hecho⟩ := hecho
  refine ⟨observedEcho, expectedEchoes, ?_⟩
  unfold World.complete
  rw [hecho]
  rfl

theorem Inv.complete (h : Inv w) {i : ℕ} {request : PersistenceRequest V}
    {result : PersistenceResult} (hi : w.results[i]? = some (request, result))
    (latest : Option Latest) :
    Inv { w.complete request result with results := w.results.eraseIdx i, latest } := by
  have hperm := inFlight_complete_perm hi
  have hmem := List.mem_of_getElem? hi
  have hsub : ∀ r ∈ w.queue ++ (w.results.eraseIdx i).map Prod.fst, r ∈ w.inFlight :=
    fun r hr => hperm.mem_iff.mp (List.mem_cons_of_mem _ hr)
  have hnodup := (hperm.map (·.revision)).nodup_iff.mpr h.nodup
  rw [List.map_cons, List.nodup_cons] at hnodup
  have hgone : ∀ r ∈ w.queue ++ (w.results.eraseIdx i).map Prod.fst,
      r.revision ≠ request.revision := by
    intro r hr heq
    exact hnodup.1 (List.mem_map.mpr ⟨r, hr, heq⟩)
  have hold : ∀ {r result'}, (r, result') ∈ w.results.eraseIdx i → (r, result') ∈ w.results :=
    fun hr => List.mem_of_mem_eraseIdx hr
  obtain ⟨observedEcho, expectedEchoes, heq⟩ := complete_eq w request result
  rw [heq]
  dsimp only
  split
  · -- the result of a request that is not the current one
    rename_i hrevision
    refine ⟨h.own, h.due, h.shown, fun hidle r hr => h.idle hidle r (hsub r hr), ?_, hnodup.2,
      fun r hr => h.revision r (hsub r hr), fun r hr => h.written r (hold hr),
      fun r hr => h.superseded r (hold hr)⟩
    intro hpending
    obtain ⟨r, hr, hcurrent⟩ := h.pending hpending
    refine ⟨r, ?_, hcurrent⟩
    rcases List.mem_cons.mp (hperm.mem_iff.mpr hr) with rfl | hr
    · exact absurd hcurrent.symm hrevision
    · exact hr
  · rename_i hrevision
    have hrevision : w.revision = request.revision := not_not.mp hrevision
    have hidle : ∀ r ∈ w.queue ++ (w.results.eraseIdx i).map Prod.fst,
        r.revision ≠ w.revision := by
      intro r hr
      rw [hrevision]
      exact hgone r hr
    have hin : ∀ r ∈ w.queue ++ (w.results.eraseIdx i).map Prod.fst,
        0 < r.revision ∧ r.revision ≤ w.revision := fun r hr => h.revision r (hsub r hr)
    obtain ⟨gate, hgate⟩ := h.exists_gate (hperm.mem_iff.mp (List.mem_cons_self ..))
    have hpersisted : ∀ row, World.persisted { w with row } = w.persisted := by
      intro row
      rw [World.persisted, World.persisted, hgate]
      rfl
    cases result with
    | superseded => exact absurd hrevision.symm (h.superseded request hmem)
    | written =>
      refine ⟨fun hown => ?_, ?_, fun _ => ?_, fun _ => hidle, nofun, hnodup.2, hin,
        fun r hr hcurrent => ?_, fun r hr => h.superseded r (hold hr)⟩
      · exact (hpersisted _).trans (h.own hown)
      · exact h.due.imp_left (hpersisted _).trans
      · exact (h.written request hmem hrevision.symm).symm.trans (hpersisted _).symm
      · exact (hpersisted _).trans (h.written r (hold hr) hcurrent)
    | failed =>
      refine ⟨fun hown => ?_, ?_, fun _ => ?_, fun _ => hidle, nofun, hnodup.2, hin,
        fun r hr hcurrent => ?_, fun r hr => h.superseded r (hold hr)⟩
      · exact (hpersisted _).trans (h.own hown)
      · exact h.due.imp_left (hpersisted _).trans
      · exact (hpersisted _).symm
      · exact (hpersisted _).trans (h.written r (hold hr) hcurrent)

theorem complete_revision (w : World V) (request : PersistenceRequest V)
    (result : PersistenceResult) : (w.complete request result).revision = w.revision := by
  obtain ⟨observedEcho, expectedEchoes, heq⟩ := complete_eq w request result
  rw [heq]
  split
  · rfl
  · cases result <;> rfl

theorem complete_fields (w : World V) (request : PersistenceRequest V)
    (result : PersistenceResult) : (w.complete request result).queue = w.queue ∧
      (w.complete request result).lastWrite = w.lastWrite := by
  obtain ⟨observedEcho, expectedEchoes, heq⟩ := complete_eq w request result
  rw [heq]
  split
  · exact ⟨rfl, rfl⟩
  · cases result <;> exact ⟨rfl, rfl⟩

theorem complete_saveFailed (w : World V) (request : PersistenceRequest V)
    (result : PersistenceResult) : (w.complete request result).saveFailed =
      if w.revision = request.revision ∧ result = .failed then
        w.saveFailed ++ [request.revision]
      else w.saveFailed := by
  obtain ⟨observedEcho, expectedEchoes, heq⟩ := complete_eq w request result
  rw [heq]
  by_cases hrevision : w.revision = request.revision
  · rw [if_neg (not_not.mpr hrevision)]
    cases result <;> simp [hrevision]
  · rw [if_pos hrevision, if_neg (fun hboth => hrevision hboth.1)]

theorem LatestInv.complete {latest : Latest} (h : LatestInv w latest) (hinv : Inv w) {i : ℕ}
    {request : PersistenceRequest V} {result : PersistenceResult}
    (hi : w.results[i]? = some (request, result)) (latest' : Option Latest) :
    LatestInv { w.complete request result with results := w.results.eraseIdx i, latest := latest' }
      (latest.complete request.revision) := by
  have hrevision := complete_revision w request result
  obtain ⟨hqueue, hwrite⟩ := complete_fields w request result
  have hperm := inFlight_complete_perm hi
  have hnodup := (hperm.map (·.revision)).nodup_iff.mpr hinv.nodup
  rw [List.map_cons, List.nodup_cons] at hnodup
  have hflight : World.inFlight
      { w.complete request result with results := w.results.eraseIdx i, latest := latest' }
        = w.queue ++ (w.results.eraseIdx i).map Prod.fst := by
    rw [World.inFlight, hqueue]
  by_cases hlast : latest.revision = request.revision
  · have hthis : latest.complete request.revision = { latest with completed := true } :=
      if_pos hlast
    rw [hthis]
    refine ⟨?_, ?_, ?_, ?_, nofun, nofun, ?_⟩
    · exact Nat.le_trans h.revision (Nat.le_of_eq hrevision.symm)
    · rw [hflight]
      exact fun r hr => h.last r (hperm.mem_iff.mp (List.mem_cons_of_mem _ hr))
    · rw [hflight]
      refine ⟨nofun, fun hmem => ?_⟩
      rw [show latest.revision = request.revision from hlast] at hmem
      exact absurd hmem hnodup.1
    · rw [hqueue]
      exact h.queue
    · rw [hqueue, hwrite]
      exact h.wrote
  · have hthis : latest.complete request.revision = latest := if_neg hlast
    rw [hthis]
    refine ⟨?_, ?_, ?_, ?_, ?_, ?_, ?_⟩
    · exact Nat.le_trans h.revision (Nat.le_of_eq hrevision.symm)
    · rw [hflight]
      exact fun r hr => h.last r (hperm.mem_iff.mp (List.mem_cons_of_mem _ hr))
    · rw [hflight, h.completed, ← (hperm.map (·.revision)).mem_iff, List.map_cons, List.mem_cons]
      exact or_iff_right hlast
    · rw [hqueue]
      exact h.queue
    · intro hopen
      exact (h.current hopen).imp_left fun hcurrent => hcurrent.trans hrevision.symm
    · intro hopen hreported
      refine (h.reported hopen hreported).imp (fun hne hcurrent =>
        hne (hcurrent.trans hrevision)) ?_
      rintro ⟨r, hr, hcurrent⟩
      obtain ⟨hlt, heq⟩ := List.getElem?_eq_some_iff.mp hi
      have hmem := (List.getElem_cons_eraseIdx_perm hlt).mem_iff.mpr hr
      rw [heq] at hmem
      refine ⟨r, (List.mem_cons.mp hmem).resolve_left ?_, hcurrent⟩
      intro hpair
      rw [(Prod.mk.inj hpair).1] at hcurrent
      exact hlast hcurrent.symm
    · rw [hqueue, hwrite]
      exact h.wrote

/-- Two results of one set are one. -/
theorem Inv.result_unique (h : Inv w) {request request' : PersistenceRequest V}
    {result result' : PersistenceResult} (hmem : (request, result) ∈ w.results)
    (hmem' : (request', result') ∈ w.results) (heq : request.revision = request'.revision) :
    result = result' := by
  have hnodup := h.nodup
  rw [World.inFlight, List.map_append, List.map_map] at hnodup
  have hone := List.inj_on_of_nodup_map hnodup.of_append_right hmem hmem' heq
  exact (Prod.mk.inj hone).2

/-- What holds of every run that meets the condition. -/
structure RunInv (w : World V) : Prop where
  inv : Inv w
  latest : ∀ latest, w.latest = some latest → LatestInv w latest
  fresh : w.latest = none → w.inFlight = []

theorem ne_append_singleton {α : Type*} (l : List α) (a : α) : l ≠ l ++ [a] := by
  intro heq
  have := congrArg List.length heq
  simp at this

theorem GivesUp.of_same {e : Event V} (hsame : w'.saveFailed = w.saveFailed)
    (hcomplete : ∀ i, e ≠ .complete i) : GivesUp w e w' := by
  refine ⟨fun revision => ⟨fun hemits => ?_, ?_⟩, .inl hsame⟩
  · rw [hsame] at hemits
    exact absurd hemits (ne_append_singleton _ _)
  · rintro ⟨i, -, -, heq, -⟩
    exact absurd heq (hcomplete i)

theorem RunInv.givesUp_complete (h : RunInv w) {i : ℕ} {request : PersistenceRequest V}
    {result : PersistenceResult} (hi : w.results[i]? = some (request, result))
    (hsaved : w'.saveFailed = (w.complete request result).saveFailed) :
    GivesUp w (.complete i) w' := by
  have hmem := List.mem_of_getElem? hi
  have hin : request ∈ w.inFlight :=
    List.mem_append_right _ (List.mem_map_of_mem (f := Prod.fst) hmem)
  obtain ⟨latest, hlatest⟩ : ∃ latest, w.latest = some latest := by
    cases hlatest : w.latest with
    | some latest => exact ⟨latest, rfl⟩
    | none =>
      rw [h.fresh hlatest] at hin
      cases hin
  have hlatestInv := h.latest latest hlatest
  by_cases hrevision : w.revision = request.revision
  · -- the request is the latest set's, and no external change has been reported since
    have hlast : latest.revision = request.revision := by
      have h₁ := hlatestInv.last request hin
      have h₂ := hlatestInv.revision
      omega
    have hopen : latest.completed = false :=
      hlatestInv.completed.mpr (List.mem_map.mpr ⟨request, hin, hlast.symm⟩)
    cases result with
    | superseded => exact absurd hrevision.symm (h.inv.superseded request hmem)
    | written =>
      have hsame : w'.saveFailed = w.saveFailed := by
        rw [hsaved, complete_saveFailed]
        exact if_neg nofun
      refine ⟨fun revision => ⟨fun hemits => ?_, ?_⟩, .inl hsame⟩
      · rw [hsame] at hemits
        exact absurd hemits (ne_append_singleton _ _)
      · rintro ⟨j, request', -, hj, hi', -⟩
        obtain rfl : i = j := Event.complete.inj hj
        rw [hi] at hi'
        cases hi'
    | failed =>
      have hemitted : w'.saveFailed = w.saveFailed ++ [request.revision] := by
        rw [hsaved, complete_saveFailed, if_pos ⟨hrevision, rfl⟩]
      have hunreported : latest.reported = false := by
        rw [← Bool.not_eq_true]
        intro hreported
        rcases hlatestInv.reported hopen hreported with hne | ⟨r, hr, hcurrent⟩
        · exact hne (hlast.trans hrevision.symm)
        · have := h.inv.result_unique hmem hr (hlast.symm.trans hcurrent.symm)
          cases this
      refine ⟨fun revision => ⟨fun hemits => ?_, ?_⟩, .inr ⟨_, hemitted⟩⟩
      · rw [hemitted] at hemits
        have hone : request.revision = revision :=
          List.singleton_inj.mp (List.append_cancel_left hemits)
        exact ⟨i, request, latest, rfl, hi, hone, hlatest, hlast.trans hone, hunreported⟩
      · rintro ⟨j, request', -, hj, hi', hone, -⟩
        obtain rfl : i = j := Event.complete.inj hj
        obtain ⟨rfl, -⟩ := Prod.mk.inj (Option.some.inj (hi.symm.trans hi'))
        rw [hemitted, hone]
  · have hsame : w'.saveFailed = w.saveFailed := by
      rw [hsaved, complete_saveFailed]
      exact if_neg fun hboth => hrevision hboth.1
    refine ⟨fun revision => ⟨fun hemits => ?_, ?_⟩, .inl hsame⟩
    · rw [hsame] at hemits
      exact absurd hemits (ne_append_singleton _ _)
    · rintro ⟨j, request', latest', hj, hi', hone, hlatest', hlast, hunreported⟩
      obtain rfl : i = j := Event.complete.inj hj
      obtain ⟨rfl, -⟩ := Prod.mk.inj (Option.some.inj (hi.symm.trans hi'))
      obtain rfl := Option.some.inj (hlatest.symm.trans hlatest')
      have hopen : latest.completed = false :=
        hlatestInv.completed.mpr (List.mem_map.mpr ⟨request, hin, hone.trans hlast.symm⟩)
      rcases hlatestInv.current hopen with hcurrent | hreported
      · exact absurd (hcurrent.symm.trans (hlast.trans hone.symm)) hrevision
      · rw [hunreported] at hreported
        cases hreported

/-! ## Notifications -/

theorem saved_iff : w.saved = true ↔ w.row.pending = false ∨
    ∃ request, (request, .written) ∈ w.results ∧ request.revision = w.revision := by
  simp only [World.saved, Bool.or_eq_true, Bool.not_eq_true', List.any_eq_true,
    Bool.and_eq_true, decide_eq_true_eq]
  constructor
  · rintro (hidle | ⟨⟨request, result⟩, hmem, hcurrent, rfl⟩)
    · exact .inl hidle
    · exact .inr ⟨request, hmem, hcurrent⟩
  · rintro (hidle | ⟨request, hmem, hcurrent⟩)
    · exact .inl hidle
    · exact .inr ⟨⟨request, .written⟩, hmem, hcurrent, rfl⟩

/-- A notification that is taken for an echo, of what the gate has. -/
theorem Inv.echo (h : Inv w) (hpersisted : w.persisted = w.store) (observedEcho : Option ℕ)
    (expectedEchoes : List V) (latest : Option Latest) :
    Inv { w with
      outstanding := w.outstanding - 1
      lastReported := w.store
      observedEcho
      expectedEchoes
      latest } :=
  ⟨h.own, .inl hpersisted, h.shown, h.idle, h.pending, h.nodup, h.revision, h.written,
    h.superseded⟩

/-- A notification that the row takes. -/
theorem Inv.external (h : Inv w) (latest : Option Latest) :
    Inv { w with
      outstanding := w.outstanding - 1
      lastReported := w.store
      gate := some ⟨w.revision + 1, w.store⟩
      row := { value := w.store }
      latest } := by
  have hpast : ∀ request ∈ w.inFlight, request.revision ≠ w.revision + 1 := by
    intro request hrequest
    have := (h.revision request hrequest).2
    omega
  have hresult : ∀ {request result}, (request, result) ∈ w.results → request ∈ w.inFlight :=
    fun hmem => List.mem_append_right _ (List.mem_map_of_mem hmem)
  refine ⟨fun _ => rfl, .inl rfl, fun _ => rfl, fun _ => hpast, nofun, h.nodup, ?_, ?_, ?_⟩
  · intro request hrequest
    show 0 < request.revision ∧ request.revision ≤ w.revision + 1
    have := h.revision request hrequest
    omega
  · exact fun request hmem hcurrent => absurd hcurrent (hpast request (hresult hmem))
  · exact fun request hmem => hpast request (hresult hmem)

/-- What a notification tells of the latest set. -/
def Latest.report (latest : Latest) (isExternal : Bool) : Latest :=
  { latest with reported := latest.reported || (isExternal && !latest.completed) }

theorem LatestInv.echo {latest : Latest} (h : LatestInv w latest) (hinv : Inv w)
    (hsaved : w.isExternal = true → w.saved = true) (observedEcho : Option ℕ)
    (expectedEchoes : List V) (latest' : Option Latest) :
    LatestInv { w with
        outstanding := w.outstanding - 1
        lastReported := w.store
        observedEcho
        expectedEchoes
        latest := latest' }
      (latest.report w.isExternal) := by
  refine ⟨h.revision, h.last, h.completed, h.queue, ?_, ?_, h.wrote⟩
  · intro hopen
    exact (h.current hopen).imp_right fun hreported => by simp [Latest.report, hreported]
  · intro hopen hreported
    have hopen : latest.completed = false := hopen
    have hreported : latest.reported = true ∨ w.isExternal = true := by
      simpa [Latest.report, hopen] using hreported
    rcases hreported with hreported | hexternal
    · exact h.reported hopen hreported
    · rcases saved_iff.mp (hsaved hexternal) with hidle | ⟨request, hmem, hcurrent⟩
      · obtain ⟨request, hrequest, hthis⟩ := List.mem_map.mp (h.completed.mp hopen)
        exact .inl fun hcurrent => hinv.idle hidle request hrequest (hthis.trans hcurrent)
      · by_cases hlast : latest.revision = w.revision
        · exact .inr ⟨request, hmem, hcurrent.trans hlast.symm⟩
        · exact .inl hlast

theorem LatestInv.external {latest : Latest} (h : LatestInv w latest) (hinv : Inv w)
    (hidle : w.isExternal = false → w.row.pending = false) (latest' : Option Latest) :
    LatestInv { w with
        outstanding := w.outstanding - 1
        lastReported := w.store
        gate := some ⟨w.revision + 1, w.store⟩
        row := { value := w.store }
        latest := latest' }
      (latest.report w.isExternal) := by
  have hpast : latest.revision ≠ w.revision + 1 := by
    have := h.revision
    omega
  refine ⟨?_, h.last, h.completed, h.queue, ?_, fun _ _ => .inl hpast, h.wrote⟩
  · show latest.revision ≤ w.revision + 1
    have := h.revision
    omega
  · intro hopen
    have hopen : latest.completed = false := hopen
    refine .inr ?_
    cases hexternal : w.isExternal with
    | true => simp [Latest.report, hopen]
    | false =>
      -- the row is not pending, so the set has been superseded before
      obtain ⟨request, hrequest, hthis⟩ := List.mem_map.mp (h.completed.mp hopen)
      have hne := hinv.idle (hidle hexternal) request hrequest
      have hreported := (h.current hopen).resolve_left fun hcurrent => hne (hthis.trans hcurrent)
      simp [Latest.report, hreported]

theorem runInv_load (value : V) : RunInv (load value) := ⟨inv_load value, nofun, fun _ => rfl⟩

theorem RunInv.complete (h : RunInv w) {i : ℕ} {request : PersistenceRequest V}
    {result : PersistenceResult} (hi : w.results[i]? = some (request, result)) :
    RunInv { w.complete request result with
      results := w.results.eraseIdx i
      latest := w.latest.map (Latest.complete · request.revision) } := by
  refine ⟨h.inv.complete hi _, fun latest hlatest => ?_, fun hnone => ?_⟩
  · obtain ⟨old, hold, rfl⟩ := Option.map_eq_some_iff.mp hlatest
    exact (h.latest old hold).complete h.inv hi _
  · have hempty := h.fresh (Option.map_eq_none_iff.mp hnone)
    have hin : request ∈ w.inFlight :=
      List.mem_append_right _ (List.mem_map_of_mem (f := Prod.fst) (List.mem_of_getElem? hi))
    rw [hempty] at hin
    cases hin

/-- A change goes unreported. -/
theorem RunInv.unreported (h : RunInv w) {outstanding : ℕ}
    (hdue : w.persisted = w.store ∨ 0 < outstanding) : RunInv { w with outstanding } := by
  refine ⟨⟨h.inv.own, hdue, h.inv.shown, h.inv.idle, h.inv.pending, h.inv.nodup, h.inv.revision,
    h.inv.written, h.inv.superseded⟩, fun latest hlatest => ?_, h.fresh⟩
  have hlatest := h.latest latest hlatest
  exact ⟨hlatest.revision, hlatest.last, hlatest.completed, hlatest.queue, hlatest.current,
    hlatest.reported, hlatest.wrote⟩

section

variable [DecidableEq V]

theorem notify_cases (w : World V) :
    (w.takes w.store = .external ∧ w.report.applyExternal w.store =
      { w with
        outstanding := w.outstanding - 1
        lastReported := w.store
        gate := some ⟨w.revision + 1, w.store⟩
        row := { value := w.store }
        latest := w.latest.map (Latest.report · w.isExternal) }) ∨
    (w.takes w.store ≠ .external ∧ ∃ observedEcho expectedEchoes,
      w.report.applyExternal w.store =
        { w with
          outstanding := w.outstanding - 1
          lastReported := w.store
          observedEcho
          expectedEchoes
          latest := w.latest.map (Latest.report · w.isExternal) }) := by
  have htakes : w.report.takes w.store = w.takes w.store := rfl
  unfold World.applyExternal
  rw [htakes]
  cases htaken : w.takes w.store with
  | external => exact .inl ⟨rfl, rfl⟩
  | expected => exact .inr ⟨nofun, _, _, rfl⟩
  | observed => exact .inr ⟨nofun, _, _, rfl⟩

theorem RunInv.notify (h : RunInv w) (hmeets : meets w .notify = true) :
    RunInv (w.report.applyExternal w.store) := by
  obtain ⟨htakes, heq⟩ | ⟨htakes, observedEcho, expectedEchoes, heq⟩ := notify_cases w
  · have hidle : w.isExternal = false → w.row.pending = false := by
      intro hown
      simpa [meets, hown, htakes] using hmeets
    rw [heq]
    refine ⟨h.inv.external _, fun latest hlatest => ?_, fun hnone => ?_⟩
    · obtain ⟨old, hold, rfl⟩ := Option.map_eq_some_iff.mp hlatest
      exact (h.latest old hold).external h.inv hidle _
    · exact h.fresh (Option.map_eq_none_iff.mp hnone)
  · have hsafe : w.isExternal = true → w.persisted = w.store ∧ w.saved = true := by
      intro hexternal
      cases htaken : w.takes w.store with
      | external => exact absurd htaken htakes
      | expected => simpa [meets, hexternal, htaken] using hmeets
      | observed => simpa [meets, hexternal, htaken] using hmeets
    have hpersisted : w.persisted = w.store := by
      cases hexternal : w.isExternal with
      | false => exact h.inv.own hexternal
      | true => exact (hsafe hexternal).1
    rw [heq]
    refine ⟨h.inv.echo hpersisted _ _ _, fun latest hlatest => ?_, fun hnone => ?_⟩
    · obtain ⟨old, hold, rfl⟩ := Option.map_eq_some_iff.mp hlatest
      exact (h.latest old hold).echo h.inv (fun hexternal => (hsafe hexternal).2) _ _ _
    · exact h.fresh (Option.map_eq_none_iff.mp hnone)

/-! ## Runs -/

theorem persist_saveFailed (w : World V) (request : PersistenceRequest V) (ok : Bool) :
    (w.persist request ok).1.saveFailed = w.saveFailed := by
  obtain ⟨result, heq, -⟩ | ⟨-, heq⟩ := persist_cases w request ok
  · rw [heq]
  · obtain ⟨outstanding, isExternal, hwrite, -, -⟩ := write_eq w request.requested false
    rw [heq, hwrite]

theorem RunInv.persist (h : RunInv w) {request : PersistenceRequest V} {queue}
    (hqueue : w.queue = request :: queue) (ok : Bool) :
    RunInv { (w.persist request ok).1 with
      queue
      results := w.results ++ [(request, (w.persist request ok).2)]
      latest := w.latest.map
        (Latest.persisted · request.revision ((w.persist request ok).2 = .failed)) } := by
  refine ⟨h.inv.persist hqueue ok _, fun latest hlatest => ?_, fun hnone => ?_⟩
  · obtain ⟨old, hold, rfl⟩ := Option.map_eq_some_iff.mp hlatest
    exact (h.latest old hold).persist hqueue ok _
  · have hempty := h.fresh (Option.map_eq_none_iff.mp hnone)
    rw [World.inFlight, hqueue] at hempty
    cases hempty

theorem RunInv.writeExternal (h : RunInv w) (value : V) : RunInv (w.write value true) := by
  have hinv := h.inv.writeExternal value
  obtain ⟨outstanding, isExternal, heq, -, -⟩ := write_eq w value true
  rw [heq] at hinv ⊢
  refine ⟨hinv, fun latest hlatest => ?_, h.fresh⟩
  have hlatest := h.latest latest hlatest
  exact ⟨hlatest.revision, hlatest.last, hlatest.completed, hlatest.queue, hlatest.current,
    hlatest.reported, hlatest.wrote⟩

theorem RunInv.step (h : RunInv w) {e : Event V} (hmeets : meets w e = true)
    (hw : w.step e = some w') : RunInv w' := by
  cases e with
  | set value =>
    obtain rfl := Option.some.inj hw
    refine ⟨h.inv.set value, fun latest hlatest => ?_, nofun⟩
    obtain rfl := Option.some.inj hlatest
    exact LatestInv.set h.inv value
  | persist ok =>
    simp only [World.step] at hw
    split at hw <;> cases hw
    rename_i request queue hqueue
    exact h.persist hqueue ok
  | complete i =>
    simp only [World.step] at hw
    split at hw <;> cases hw
    rename_i request result hi
    exact h.complete hi
  | writeExternal value =>
    obtain rfl := Option.some.inj hw
    exact h.writeExternal value
  | notify =>
    simp only [World.step] at hw
    split at hw <;> cases hw
    exact h.notify hmeets
  | coalesce =>
    simp only [World.step] at hw
    split at hw <;> cases hw
    rename_i hseveral
    exact h.unreported (.inr (by omega))
  | drop =>
    simp only [World.step] at hw
    split at hw <;> cases hw
    refine h.unreported ?_
    simp only [meets, Bool.or_eq_true, decide_eq_true_eq] at hmeets
    rcases hmeets with hseveral | hpersisted
    · exact .inr (by omega)
    · exact .inl hpersisted

/-- Only `complete` gives a set up. -/
theorem RunInv.givesUp (h : RunInv w) {e : Event V} (hw : w.step e = some w') :
    GivesUp w e w' := by
  cases e with
  | complete i =>
    simp only [World.step] at hw
    split at hw <;> cases hw
    rename_i request result hi
    exact h.givesUp_complete hi rfl
  | set value =>
    obtain rfl := Option.some.inj hw
    exact .of_same rfl nofun
  | persist ok =>
    simp only [World.step] at hw
    split at hw <;> cases hw
    rename_i request queue hqueue
    exact .of_same (persist_saveFailed w request ok) nofun
  | writeExternal value =>
    obtain rfl := Option.some.inj hw
    obtain ⟨outstanding, isExternal, heq, -, -⟩ := write_eq w value true
    exact .of_same (by rw [heq]) nofun
  | notify =>
    simp only [World.step] at hw
    split at hw <;> cases hw
    refine .of_same ?_ nofun
    obtain ⟨-, heq⟩ | ⟨-, _, _, heq⟩ := notify_cases w <;> rw [heq]
  | coalesce | drop =>
    simp only [World.step] at hw
    split at hw <;> cases hw
    exact .of_same rfl nofun

theorem RunInv.run (h : RunInv w) {events : List (Event V)}
    (hrun : w.run meets events = some w') : RunInv w' := by
  induction events generalizing w with
  | nil =>
    obtain rfl := Option.some.inj hrun
    exact h
  | cons e events ih =>
    obtain ⟨next, hnext, hrun⟩ := Option.bind_eq_some_iff.mp hrun
    dsimp only at hnext
    split at hnext
    · rename_i hmeets
      exact ih (h.step hmeets hnext) hrun
    · cases hnext

/-- **The settings page shows what the store holds**, and gives a set up only when it must, through
every run in which no change by another process is taken for an echo, no echo for such a change,
and no change back is kept from the page. -/
theorem row_shows_store (value : V) {events : List (Event V)}
    (hrun : (load value).run meets events = some w) :
    (w.Quiescent → Shows w) ∧ ∀ e w', w.step e = some w' → GivesUp w e w' := by
  have h := (runInv_load value).run hrun
  exact ⟨h.inv.shows h.latest, fun e w' hw => h.givesUp hw⟩

/-- Two sets, of which the first is reported with the second. -/
theorem twoSets_shown :
    ∃ w, (load "").run meets
        [.set "fr", .persist true, .complete 0, .notify, .set "de", .persist true, .notify,
          .complete 0] = some w ∧
      (w.Quiescent → Shows w) ∧ ∀ e w', w.step e = some w' → GivesUp w e w' := by
  have hrun : (load "").run meets
      [.set "fr", .persist true, .complete 0, .notify, .set "de", .persist true, .notify,
        .complete 0] = some _ := rfl
  exact ⟨_, hrun, row_shows_store "" hrun⟩

/-- Two sets are reported as one change, and the echo of the first stays expected: it swallows what
another process writes later. -/
theorem coalesced_swallows :
    ∃ w, (load "").run (fun _ _ => true)
        [.set "fr", .persist true, .complete 0, .set "de", .persist true, .coalesce, .notify,
          .complete 0, .writeExternal "fr", .notify] = some w ∧
      w.Quiescent ∧ w.store = "fr" ∧ w.row = { value := "de" } ∧ ¬Shows w := by
  refine ⟨_, rfl, ⟨rfl, rfl, rfl⟩, rfl, rfl, fun hshows => ?_⟩
  exact absurd hshows.row (by decide)

end

end MynaSettings

end Config

end Myna

import Mathlib.Data.String.Basic
import Mathlib.Data.List.Sort
import Mathlib.Data.Prod.Lex
import Mathlib.Order.WithBot
import Myna.Config.ApplyPlan

/-!
# Myna — what `myna:backend` is connected to (`myna_config::domain`)

snapd lists every content slot of the machine with its own attributes and the plugs connected to it.
`connectionSnapshot` sorts them into the models on the machine, those of them that feed Myna, and
the strays: slots that feed Myna and are no model.

* **`mem_backends`**, **`mem_connected`**, **`mem_strays`** — what the snapshot holds of an answer;
* **`connectionSnapshot_wellFormed`** — what holds of every snapshot read from snapd.
-/

/-! ## Sorted lists as sets -/

namespace List

variable {α : Type*} [LinearOrder α]

/-- `BTreeSet::insert`, of a set that is listed in order. -/
def btreeInsert (s : List α) (a : α) : List α :=
  if a ∈ s then s else s.orderedInsert (· ≤ ·) a

@[simp] theorem mem_btreeInsert {s : List α} {a b : α} :
    b ∈ s.btreeInsert a ↔ b = a ∨ b ∈ s := by
  unfold btreeInsert
  split
  · rename_i ha
    constructor
    · exact Or.inr
    · rintro (rfl | hb)
      · exact ha
      · exact hb
  · rw [mem_orderedInsert]

theorem nodup_btreeInsert {s : List α} (h : s.Nodup) (a : α) : (s.btreeInsert a).Nodup := by
  unfold btreeInsert
  split
  · exact h
  · rename_i ha
    exact (perm_orderedInsert (· ≤ ·) a s).nodup_iff.mpr (nodup_cons.mpr ⟨ha, h⟩)

end List

namespace Myna

namespace Config

/-! ## Backends -/

structure BackendIdentity where
  snapName : String
  slotName : String
  modelctlApp : Option String
deriving DecidableEq

namespace BackendIdentity

def new (snapName slotName : String) : BackendIdentity := ⟨snapName, slotName, none⟩

def withModelctlApp (backend : BackendIdentity) (modelctlApp : String) : BackendIdentity :=
  { backend with modelctlApp := some modelctlApp }

def slot (backend : BackendIdentity) : String := backend.snapName ++ ":" ++ backend.slotName

/-- What the derived order compares: the fields in turn, `None` before every name. -/
def key (backend : BackendIdentity) : String ×ₗ String ×ₗ WithBot String :=
  toLex (backend.snapName, toLex (backend.slotName, backend.modelctlApp))

theorem key_injective : Function.Injective key := by
  intro a b h
  obtain ⟨hsnap, hrest⟩ := Prod.mk.inj (toLex_inj.mp h)
  obtain ⟨hslot, happ⟩ := Prod.mk.inj (toLex_inj.mp hrest)
  cases a
  cases b
  exact congr (congr (congrArg mk hsnap) hslot) happ

instance : LinearOrder BackendIdentity := LinearOrder.lift' key key_injective

end BackendIdentity

/-! ## Snapshots -/

inductive ActiveBackendState
  | disconnected
  | connected (backend : BackendIdentity)
  | multiplyConnected (backends : List BackendIdentity)
deriving DecidableEq

structure ConnectionSnapshot where
  backends : List BackendIdentity
  activeState : ActiveBackendState
  strays : List BackendIdentity
deriving DecidableEq

namespace ConnectionSnapshot

def new (backends : List BackendIdentity) (activeState : ActiveBackendState) :
    ConnectionSnapshot :=
  ⟨backends, activeState, []⟩

end ConnectionSnapshot

/-- `connected_backends`: the models that feed Myna. -/
def connectedBackends (snapshot : ConnectionSnapshot) : List BackendIdentity :=
  match snapshot.activeState with
  | .disconnected => []
  | .connected backend => [backend]
  | .multiplyConnected backends => backends

/-! ## snapd's answer -/

def PROVIDER_CONTENT_ID : String := "inference-provider"

def SPEECH_TO_TEXT_TASK : String := "speech-to-text"

structure PlugReference where
  snap : String
  plug : String

structure ContentSlot where
  snap : String
  slot : String
  attrs : Dict String Json := []
  connections : List PlugReference := []

structure ContentConnections where
  slots : List ContentSlot := []

namespace ContentSlot

def attributeOf (content : ContentSlot) (key : String) : Option String :=
  (content.attrs.get? key).bind Json.asStr

def isModel (content : ContentSlot) : Bool :=
  content.attributeOf "content" = some PROVIDER_CONTENT_ID &&
    (content.attributeOf "task" = some SPEECH_TO_TEXT_TASK ||
      (ModelFamily.fromSnapName content.snap).isSome)

def feedsMyna (content : ContentSlot) : Bool :=
  content.connections.any fun plug => plug.snap = "myna" && plug.plug = "backend"

def backend (content : ContentSlot) : BackendIdentity := .new content.snap content.slot

end ContentSlot

/-- The three sets of the loop over the slots. -/
structure Sorted where
  discovered : List BackendIdentity := []
  connected : List BackendIdentity := []
  strays : List BackendIdentity := []

def Sorted.slot (sets : Sorted) (content : ContentSlot) : Sorted :=
  match content.isModel, content.feedsMyna with
  | true, true =>
    { sets with
      connected := sets.connected.btreeInsert content.backend
      discovered := sets.discovered.btreeInsert content.backend }
  | true, false => { sets with discovered := sets.discovered.btreeInsert content.backend }
  | false, true => { sets with strays := sets.strays.btreeInsert content.backend }
  | false, false => sets

def activeOf : List BackendIdentity → ActiveBackendState
  | [] => .disconnected
  | [backend] => .connected backend
  | backends => .multiplyConnected backends

def connectionSnapshot (connections : ContentConnections) : ConnectionSnapshot :=
  let sets := connections.slots.foldl Sorted.slot {}
  { backends := sets.discovered
    activeState := activeOf sets.connected
    strays := sets.strays }

/-! ## What a snapshot holds -/

@[simp] theorem connectedBackends_activeOf (backends connected strays : List BackendIdentity) :
    connectedBackends ⟨backends, activeOf connected, strays⟩ = connected := by
  rcases connected with _ | ⟨first, _ | ⟨second, more⟩⟩ <;> rfl

section

variable {sets : Sorted} {content : ContentSlot}

theorem Sorted.mem_discovered_slot (sets : Sorted) (content : ContentSlot)
    (backend : BackendIdentity) :
    backend ∈ (sets.slot content).discovered ↔
      backend ∈ sets.discovered ∨ (content.isModel = true ∧ content.backend = backend) := by
  unfold slot
  cases content.isModel <;> cases content.feedsMyna <;>
    simp [or_comm, eq_comm]

theorem Sorted.mem_connected_slot (sets : Sorted) (content : ContentSlot)
    (backend : BackendIdentity) :
    backend ∈ (sets.slot content).connected ↔
      backend ∈ sets.connected ∨
        (content.isModel = true ∧ content.feedsMyna = true) ∧ content.backend = backend := by
  unfold slot
  cases content.isModel <;> cases content.feedsMyna <;>
    simp [or_comm, eq_comm]

theorem Sorted.mem_strays_slot (sets : Sorted) (content : ContentSlot)
    (backend : BackendIdentity) :
    backend ∈ (sets.slot content).strays ↔
      backend ∈ sets.strays ∨
        (content.isModel = false ∧ content.feedsMyna = true) ∧ content.backend = backend := by
  unfold slot
  cases content.isModel <;> cases content.feedsMyna <;>
    simp [or_comm, eq_comm]

/-- Every set stays a set. -/
structure Sorted.Nodup (sets : Sorted) : Prop where
  discovered : sets.discovered.Nodup
  connected : sets.connected.Nodup
  strays : sets.strays.Nodup

theorem Sorted.Nodup.slot (h : sets.Nodup) : (sets.slot content).Nodup := by
  unfold Sorted.slot
  split
  · exact ⟨List.nodup_btreeInsert h.discovered _, List.nodup_btreeInsert h.connected _, h.strays⟩
  · exact ⟨List.nodup_btreeInsert h.discovered _, h.connected, h.strays⟩
  · exact ⟨h.discovered, h.connected, List.nodup_btreeInsert h.strays _⟩
  · exact h

theorem Sorted.Nodup.foldl (h : sets.Nodup) (slots : List ContentSlot) :
    (slots.foldl Sorted.slot sets).Nodup := by
  induction slots generalizing sets with
  | nil => exact h
  | cons content slots ih => exact ih h.slot

end

/-- A fold collects what each of its steps adds. -/
theorem mem_foldl_slot {P : ContentSlot → Prop} {part : Sorted → List BackendIdentity}
    {backend : BackendIdentity}
    (h : ∀ sets content, backend ∈ part (sets.slot content) ↔
      backend ∈ part sets ∨ (P content ∧ content.backend = backend))
    (slots : List ContentSlot) (sets : Sorted) :
    backend ∈ part (slots.foldl Sorted.slot sets) ↔
      backend ∈ part sets ∨ ∃ content ∈ slots, P content ∧ content.backend = backend := by
  induction slots generalizing sets with
  | nil => simp
  | cons content slots ih =>
    rw [List.foldl_cons, ih, h]
    simp [or_assoc]

section

variable {connections : ContentConnections} {backend : BackendIdentity}

theorem mem_backends :
    backend ∈ (connectionSnapshot connections).backends ↔
      ∃ content ∈ connections.slots, content.isModel = true ∧ content.backend = backend := by
  have h := mem_foldl_slot (P := fun content => content.isModel = true)
    (fun sets content => Sorted.mem_discovered_slot sets content backend) connections.slots {}
  simpa [connectionSnapshot] using h

theorem mem_connected :
    backend ∈ connectedBackends (connectionSnapshot connections) ↔
      ∃ content ∈ connections.slots,
        (content.isModel = true ∧ content.feedsMyna = true) ∧ content.backend = backend := by
  have h := mem_foldl_slot (P := fun content => content.isModel = true ∧ content.feedsMyna = true)
    (fun sets content => Sorted.mem_connected_slot sets content backend) connections.slots {}
  simpa [connectionSnapshot] using h

theorem mem_strays :
    backend ∈ (connectionSnapshot connections).strays ↔
      ∃ content ∈ connections.slots,
        (content.isModel = false ∧ content.feedsMyna = true) ∧ content.backend = backend := by
  have h := mem_foldl_slot (P := fun content => content.isModel = false ∧ content.feedsMyna = true)
    (fun sets content => Sorted.mem_strays_slot sets content backend) connections.slots {}
  simpa [connectionSnapshot] using h

end

/-- What holds of every snapshot read from snapd. -/
structure ConnectionSnapshot.WellFormed (snapshot : ConnectionSnapshot) : Prop where
  /-- The state counts the models that feed Myna. -/
  active : snapshot.activeState = activeOf (connectedBackends snapshot)
  nodup : (connectedBackends snapshot).Nodup
  installed : ∀ backend ∈ connectedBackends snapshot, backend ∈ snapshot.backends
  backends_nodup : snapshot.backends.Nodup
  strays_nodup : snapshot.strays.Nodup

theorem connectionSnapshot_wellFormed (connections : ContentConnections) :
    (connectionSnapshot connections).WellFormed := by
  have hsets : (connections.slots.foldl Sorted.slot {}).Nodup :=
    Sorted.Nodup.foldl ⟨List.nodup_nil, List.nodup_nil, List.nodup_nil⟩ _
  refine ⟨?_, ?_, ?_, hsets.discovered, hsets.strays⟩
  · rw [connectionSnapshot, connectedBackends_activeOf]
  · rw [connectionSnapshot, connectedBackends_activeOf]
    exact hsets.connected
  · intro backend hmem
    obtain ⟨content, hcontent, ⟨hmodel, -⟩, heq⟩ := mem_connected.mp hmem
    exact mem_backends.mpr ⟨content, hcontent, hmodel, heq⟩

end Config

end Myna

import Mathlib.Algebra.Group.Nat.Defs
import Mathlib.Data.Finset.Card

/-!
# Myna — the HUD clients on the bus (`myna_desktop::dbus::serve`)

A client is known by its unique name. The handlers take its calls off one queue, and the prune task
takes `NameOwnerChanged` off another, to which the bus delivers from the moment it has subscribed. A
name that has vanished is never owned again; a client that reconnects has another one.

* **`World.run`** — clients, the bus, the handlers and the prune task;
* **`noGhost_iff`** — when the registry comes to hold the clients that are there, and no others.
-/

namespace Myna

namespace Desktop

namespace Clients

/-! ## The registry -/

/-- `hasClients` is what the notification fallback reads. -/
structure ClientRegistry where
  clients : Finset String := ∅
  hasClients : Bool := false
deriving DecidableEq

namespace ClientRegistry

/-- The registry with these clients, and their number as a `u32`. -/
def store (clients : Finset String) : ClientRegistry × ℕ :=
  (⟨clients, clients ≠ ∅⟩, clients.card % 2 ^ 32)

def insert (r : ClientRegistry) (sender : String) : ClientRegistry × ℕ :=
  store (Insert.insert sender r.clients)

def remove (r : ClientRegistry) (sender : String) : ClientRegistry × ℕ :=
  store (r.clients.erase sender)

def removeIfPresent (r : ClientRegistry) (sender : String) : ClientRegistry × Bool :=
  if sender ∈ r.clients then ((store (r.clients.erase sender)).1, true) else (r, false)

def len (r : ClientRegistry) : ℕ := r.clients.card % 2 ^ 32

end ClientRegistry

inductive Method
  | registerClient
  | unregisterClient
deriving DecidableEq

/-- A call, with the sender that the bus stamps on it. -/
structure MethodCall where
  sender : String
  method : Method
deriving DecidableEq

structure NameOwnerChanged where
  name : String
  newOwner : Option String
deriving DecidableEq

namespace ClientRegistry

/-- `register_client` and `unregister_client`. -/
def handle (r : ClientRegistry) (call : MethodCall) : ClientRegistry × ℕ :=
  if call.sender = "" then (r, r.len)
  else
    match call.method with
    | .registerClient => r.insert call.sender
    | .unregisterClient => r.remove call.sender

def isUnique (name : String) : Bool := name.toList.head? = some ':'

/-- What the prune task does about one change. -/
def prune (r : ClientRegistry) (change : NameOwnerChanged) : ClientRegistry :=
  if change.newOwner.isSome then r
  else if isUnique change.name then (r.removeIfPresent change.name).1
  else r

end ClientRegistry

open ClientRegistry

/-- The last call of a client. -/
def lastCall (calls : List MethodCall) (name : String) : Option Method :=
  (calls.filter fun call => call.sender = name).getLast?.map MethodCall.method

/-! ## Clients, the bus and the tasks -/

/-- `calls` and `signals` are the two queues; `sent` is every call there has been. -/
structure World where
  registry : ClientRegistry := {}
  calls : List MethodCall := []
  signals : List NameOwnerChanged := []
  subscribed : Bool := false
  connected : Finset String := ∅
  gone : Finset String := ∅
  sent : List MethodCall := []
deriving DecidableEq

namespace World

/-- What happens next; `owns` is about a name that is not unique. -/
inductive Act
  | connect (name : String)
  | call (name : String) (method : Method)
  | vanish (name : String)
  | owns (name : String) (owner : Option String)
  | subscribe
  | handle
  | prune

/-- The bus tells the prune task, once that has subscribed. -/
def tell (w : World) (change : NameOwnerChanged) : List NameOwnerChanged :=
  if w.subscribed then w.signals ++ [change] else w.signals

def act (w : World) : Act → Option World
  | .connect name =>
    if isUnique name ∧ name ∉ w.connected ∧ name ∉ w.gone then
      some { w with
        connected := Insert.insert name w.connected
        signals := w.tell ⟨name, some name⟩ }
    else none
  | .call name method =>
    if name ∈ w.connected then
      some { w with calls := w.calls ++ [⟨name, method⟩], sent := w.sent ++ [⟨name, method⟩] }
    else none
  | .vanish name =>
    if name ∈ w.connected then
      some { w with
        connected := w.connected.erase name
        gone := Insert.insert name w.gone
        signals := w.tell ⟨name, none⟩ }
    else none
  | .owns name owner =>
    if isUnique name then none else some { w with signals := w.tell ⟨name, owner⟩ }
  | .subscribe => some { w with subscribed := true }
  | .handle =>
    match w.calls with
    | [] => none
    | call :: calls => some { w with registry := (w.registry.handle call).1, calls }
  | .prune =>
    match w.signals with
    | [] => none
    | change :: signals => some { w with registry := w.registry.prune change, signals }

def run (w : World) (acts : List Act) : Option World := acts.foldlM act w

/-- A client that is there: it has registered, has not unregistered since, and owns its name. -/
def Stands (w : World) (name : String) : Prop :=
  name ∈ w.connected ∧ lastCall w.sent name = some .registerClient

/-- The registry holds the clients that are there, and no others. -/
def NoGhost (w : World) : Prop :=
  (∀ name, name ∈ w.registry.clients ↔ w.Stands name) ∧
    (w.registry.hasClients = true ↔ ∃ name, w.Stands name)

/-- A client that is registered vanishes only once the prune task has subscribed, and that takes a
name off its queue only when the handlers have taken the client's last `RegisterClient`. -/
def timely (w : World) : Act → Bool
  | .vanish name => w.subscribed || lastCall w.sent name ≠ some .registerClient
  | .prune => w.signals.head?.all fun change =>
    change.newOwner.isSome || !isUnique change.name ||
      lastCall w.calls change.name ≠ some .registerClient
  | _ => true

/-- Every step of a run is timely. -/
def orderly : World → List Act → Bool
  | _, [] => true
  | w, a :: acts => w.timely a && (w.act a).all fun w => w.orderly acts

end World

/-! ## What the handlers leave -/

section

variable {r : ClientRegistry} {call : MethodCall} {calls : List MethodCall} {name : String}

theorem lastCall_concat :
    lastCall (calls ++ [call]) name =
      if call.sender = name then some call.method else lastCall calls name := by
  unfold lastCall
  rw [List.filter_append]
  by_cases hsender : call.sender = name
  · rw [if_pos hsender, List.filter_cons_of_pos (by simpa using hsender)]
    simp
  · rw [if_neg hsender, List.filter_cons_of_neg (by simpa using hsender)]
    simp

theorem mem_handle_of_ne (hne : call.sender ≠ name) :
    name ∈ (r.handle call).1.clients ↔ name ∈ r.clients := by
  unfold handle
  split
  · rfl
  · cases call.method with
    | registerClient => exact Finset.mem_insert.trans (or_iff_right hne.symm)
    | unregisterClient => exact Finset.mem_erase.trans (and_iff_right hne.symm)

theorem mem_handle_self (hsender : call.sender ≠ "") :
    call.sender ∈ (r.handle call).1.clients ↔ call.method = .registerClient := by
  unfold handle
  rw [if_neg hsender]
  cases call.method with
  | registerClient => exact iff_of_true (Finset.mem_insert_self _ _) rfl
  | unregisterClient => exact iff_of_false (Finset.notMem_erase _ _) nofun

/-- The registry once the handlers have taken these calls. -/
def handleAll (r : ClientRegistry) (calls : List MethodCall) : ClientRegistry :=
  calls.foldl (fun r call => (r.handle call).1) r

theorem handleAll_concat : handleAll r (calls ++ [call]) = ((handleAll r calls).handle call).1 :=
  List.foldl_append

/-- A client's last call decides. -/
theorem mem_handleAll (hname : name ≠ "") :
    name ∈ (handleAll r calls).clients ↔
      (lastCall calls name).elim (name ∈ r.clients) (· = .registerClient) := by
  induction calls using List.reverseRecOn with
  | nil => rfl
  | append_singleton calls call ih =>
    rw [handleAll_concat, lastCall_concat]
    by_cases hsender : call.sender = name
    · subst hsender
      rw [if_pos rfl]
      exact mem_handle_self hname
    · rw [if_neg hsender, mem_handle_of_ne hsender]
      exact ih

theorem handleAll_subset {r' : ClientRegistry} (h : r.clients ⊆ r'.clients) :
    (handleAll r calls).clients ⊆ (handleAll r' calls).clients := by
  induction calls using List.reverseRecOn with
  | nil => exact h
  | append_singleton calls call ih =>
    rw [handleAll_concat, handleAll_concat]
    unfold handle
    split
    · exact ih
    · cases call.method with
      | registerClient => exact Finset.insert_subset_insert _ ih
      | unregisterClient => exact Finset.erase_subset_erase _ ih

theorem mem_prune {change : NameOwnerChanged} :
    name ∈ (r.prune change).clients ↔
      name ∈ r.clients ∧ ¬ (change = ⟨name, none⟩ ∧ isUnique name = true) := by
  obtain ⟨vanished, newOwner⟩ := change
  unfold prune
  cases newOwner with
  | some owner => simp
  | none =>
    rw [if_neg (show ¬ (none : Option String).isSome = true from Bool.false_ne_true)]
    by_cases hunique : isUnique vanished = true
    · rw [if_pos hunique]
      unfold removeIfPresent
      by_cases hname : vanished = name
      · subst hname
        split
        · exact iff_of_false (Finset.notMem_erase _ _) fun h => h.2 ⟨rfl, hunique⟩
        · rename_i hgone
          exact iff_of_false hgone fun h => hgone h.1
      · have hother : ¬ ((⟨vanished, none⟩ : NameOwnerChanged) = ⟨name, none⟩ ∧
            isUnique name = true) := fun h => hname (congrArg NameOwnerChanged.name h.1)
        rw [and_iff_left hother]
        split
        · exact Finset.mem_erase.trans (and_iff_right (Ne.symm hname))
        · rfl
    · rw [if_neg hunique]
      refine (and_iff_left ?_).symm
      rintro ⟨heq, hname⟩
      obtain rfl : vanished = name := congrArg NameOwnerChanged.name heq
      exact hunique hname

/-! ## The notification fallback -/

/-- `hasClients` goes with the clients. -/
def Kept (r : ClientRegistry) : Prop := r.hasClients = decide (r.clients ≠ ∅)

theorem Kept.handle (h : Kept r) : Kept (r.handle call).1 := by
  unfold ClientRegistry.handle
  split
  · exact h
  · cases call.method <;> rfl

theorem Kept.prune (h : Kept r) {change : NameOwnerChanged} : Kept (r.prune change) := by
  unfold ClientRegistry.prune removeIfPresent
  split
  · exact h
  · split
    · split
      · rfl
      · exact h
    · exact h

end

/-! ## The invariant -/

namespace World

/-- The clients once the handlers have taken their queue. -/
def drained (w : World) : Finset String := (handleAll w.registry w.calls).clients

/-- It has vanished, and the prune task has yet to hear of it. -/
def Unheard (w : World) (name : String) : Prop :=
  name ∈ w.gone ∧ (⟨name, none⟩ : NameOwnerChanged) ∈ w.signals

structure Inv (w : World) : Prop where
  kept : Kept w.registry
  unique : ∀ name, name ∈ w.connected ∨ name ∈ w.gone → isUnique name = true
  apart : ∀ name ∈ w.connected, name ∉ w.gone
  known : ∀ name, name ∈ w.drained ∨ lastCall w.sent name ≠ none →
    name ∈ w.connected ∨ name ∈ w.gone
  /-- As its own calls have it, until the prune task hears that it has vanished. -/
  stands : ∀ name, name ∈ w.connected ∨ w.Unheard name →
    (name ∈ w.drained ↔ lastCall w.sent name = some .registerClient)
  vanished : ∀ name, isUnique name = true → (⟨name, none⟩ : NameOwnerChanged) ∈ w.signals →
    name ∈ w.gone
  once : ∀ name, isUnique name = true → w.signals.count ⟨name, none⟩ ≤ 1

theorem inv_init : Inv {} := by
  refine ⟨rfl, nofun, nofun, ?_, ?_, nofun, fun _ _ => Nat.zero_le 1⟩
  · rintro name (h | h)
    · cases h
    · exact absurd rfl h
  · rintro name (h | ⟨h, -⟩) <;> cases h

section

variable {w : World} {name : String} {change : NameOwnerChanged}

theorem mem_tell {other : NameOwnerChanged} (h : other ∈ w.tell change) :
    other ∈ w.signals ∨ other = change := by
  unfold tell at h
  split at h
  · simpa using h
  · exact .inl h

theorem mem_tell_of_mem {other : NameOwnerChanged} (h : other ∈ w.signals) :
    other ∈ w.tell change := by
  unfold tell
  split
  · exact List.mem_append_left _ h
  · exact h

/-- What is told about something else is no matter to a name. -/
theorem mem_tell_of_ne (hne : change ≠ ⟨name, none⟩) :
    (⟨name, none⟩ : NameOwnerChanged) ∈ w.tell change → ⟨name, none⟩ ∈ w.signals :=
  fun h => (mem_tell h).resolve_right hne.symm

theorem count_tell_of_ne (hne : change ≠ ⟨name, none⟩) :
    (w.tell change).count ⟨name, none⟩ = w.signals.count ⟨name, none⟩ := by
  unfold tell
  split
  · rw [List.count_append, List.count_singleton, if_neg (by simpa using hne)]
    rfl
  · rfl

theorem Inv.connect (h : Inv w) (hunique : isUnique name = true) (hconnected : name ∉ w.connected)
    (hgone : name ∉ w.gone) :
    Inv { w with
      connected := Insert.insert name w.connected
      signals := w.tell ⟨name, some name⟩ } := by
  have hne : ∀ other, (⟨name, some name⟩ : NameOwnerChanged) ≠ ⟨other, none⟩ := nofun
  have hnew : ¬ (name ∈ w.drained ∨ lastCall w.sent name ≠ none) :=
    fun hknown => (h.known name hknown).elim hconnected hgone
  refine ⟨h.kept, ?_, ?_, ?_, ?_, ?_, ?_⟩
  · rintro other (hother | hother)
    · rcases Finset.mem_insert.mp hother with rfl | hother
      · exact hunique
      · exact h.unique other (.inl hother)
    · exact h.unique other (.inr hother)
  · intro other hother
    rcases Finset.mem_insert.mp hother with rfl | hother
    · exact hgone
    · exact h.apart other hother
  · exact fun other hother => (h.known other hother).imp_left (Finset.mem_insert_of_mem ·)
  · rintro other (hother | ⟨hother, htold⟩)
    · rcases Finset.mem_insert.mp hother with rfl | hother
      · refine iff_of_false (fun hdrained => hnew (.inl hdrained)) fun hlast => hnew (.inr ?_)
        rw [hlast]
        nofun
      · exact h.stands other (.inl hother)
    · exact h.stands other (.inr ⟨hother, mem_tell_of_ne (hne other) htold⟩)
  · exact fun other hother htold => h.vanished other hother (mem_tell_of_ne (hne other) htold)
  · exact fun other hother => (count_tell_of_ne (hne other)).trans_le (h.once other hother)

theorem isUnique_ne_empty (h : isUnique name = true) : name ≠ "" := by
  rintro rfl
  exact absurd h (by decide)

theorem drained_call {call : MethodCall} {sent : List MethodCall} :
    World.drained { w with calls := w.calls ++ [call], sent } =
      ((handleAll w.registry w.calls).handle call).1.clients :=
  congrArg ClientRegistry.clients handleAll_concat

theorem Inv.call (h : Inv w) (hconnected : name ∈ w.connected) (method : Method) :
    Inv { w with calls := w.calls ++ [⟨name, method⟩], sent := w.sent ++ [⟨name, method⟩] } := by
  have hname := isUnique_ne_empty (h.unique name (.inl hconnected))
  have hlast : ∀ other, name ≠ other →
      lastCall (w.sent ++ [⟨name, method⟩]) other = lastCall w.sent other :=
    fun other hne => lastCall_concat.trans (if_neg hne)
  have hstands : ∀ other, other ∈ w.connected ∨ w.Unheard other →
      (other ∈ ((handleAll w.registry w.calls).handle ⟨name, method⟩).1.clients ↔
        lastCall (w.sent ++ [⟨name, method⟩]) other = some .registerClient) := by
    intro other hother
    by_cases hne : name = other
    · subst hne
      rw [lastCall_concat, if_pos rfl]
      exact (@mem_handle_self _ ⟨name, method⟩ hname).trans (by simp)
    · rw [mem_handle_of_ne hne, hlast other hne]
      exact h.stands other hother
  refine ⟨h.kept, h.unique, h.apart, ?_, ?_, h.vanished, h.once⟩
  · intro other hother
    rw [drained_call] at hother
    by_cases hne : name = other
    · exact .inl (hne ▸ hconnected)
    · have hother : _ ∨ lastCall (w.sent ++ [⟨name, method⟩]) other ≠ none := hother
      rw [mem_handle_of_ne hne, hlast other hne] at hother
      exact h.known other hother
  · intro other hother
    rw [drained_call]
    exact hstands other hother

theorem Inv.vanish (h : Inv w) (hconnected : name ∈ w.connected) :
    Inv { w with
      connected := w.connected.erase name
      gone := Insert.insert name w.gone
      signals := w.tell ⟨name, none⟩ } := by
  have hne : ∀ other, other ≠ name →
      (⟨name, none⟩ : NameOwnerChanged) ≠ ⟨other, none⟩ :=
    fun other hother heq => hother (congrArg NameOwnerChanged.name heq).symm
  have hunheard : (⟨name, none⟩ : NameOwnerChanged) ∉ w.signals := fun hmem =>
    h.apart name hconnected (h.vanished name (h.unique name (.inl hconnected)) hmem)
  refine ⟨h.kept, ?_, ?_, ?_, ?_, ?_, ?_⟩
  · rintro other (hother | hother)
    · exact h.unique other (.inl (Finset.mem_of_mem_erase hother))
    · rcases Finset.mem_insert.mp hother with rfl | hother
      · exact h.unique _ (.inl hconnected)
      · exact h.unique other (.inr hother)
  · intro other hother hgone
    obtain ⟨hother, hmem⟩ := Finset.mem_erase.mp hother
    rcases Finset.mem_insert.mp hgone with heq | hgone
    · exact hother heq
    · exact h.apart other hmem hgone
  · intro other hother
    by_cases heq : other = name
    · exact .inr (Finset.mem_insert.mpr (.inl heq))
    · exact (h.known other hother).imp (fun hmem => Finset.mem_erase.mpr ⟨heq, hmem⟩)
        (Finset.mem_insert_of_mem ·)
  · intro other hother
    refine h.stands other ?_
    by_cases heq : other = name
    · exact .inl (heq ▸ hconnected)
    · rcases hother with hother | ⟨hgone, htold⟩
      · exact .inl (Finset.mem_of_mem_erase hother)
      · exact .inr ⟨(Finset.mem_insert.mp hgone).resolve_left heq,
          mem_tell_of_ne (hne other heq) htold⟩
  · intro other hother htold
    by_cases heq : other = name
    · exact Finset.mem_insert.mpr (.inl heq)
    · exact Finset.mem_insert_of_mem
        (h.vanished other hother (mem_tell_of_ne (hne other heq) htold))
  · intro other hother
    by_cases heq : other = name
    · subst heq
      show (w.tell ⟨other, none⟩).count _ ≤ 1
      unfold tell
      split
      · rw [List.count_append, List.count_eq_zero.mpr hunheard, List.count_singleton_self]
      · rw [List.count_eq_zero.mpr hunheard]
        exact Nat.zero_le 1
    · exact (count_tell_of_ne (hne other heq)).trans_le (h.once other hother)

theorem Inv.owns (h : Inv w) (hunique : ¬ isUnique name = true) (owner : Option String) :
    Inv { w with signals := w.tell ⟨name, owner⟩ } := by
  have hne : ∀ other, isUnique other = true →
      (⟨name, owner⟩ : NameOwnerChanged) ≠ ⟨other, none⟩ := by
    intro other hother heq
    injection heq with hname
    exact hunique (hname ▸ hother)
  refine ⟨h.kept, h.unique, h.apart, h.known, ?_, ?_, ?_⟩
  · intro other hother
    refine h.stands other (hother.imp_right ?_)
    rintro ⟨hgone, htold⟩
    exact ⟨hgone, mem_tell_of_ne (hne other (h.unique other (.inr hgone))) htold⟩
  · exact fun other hother htold =>
      h.vanished other hother (mem_tell_of_ne (hne other hother) htold)
  · exact fun other hother => (count_tell_of_ne (hne other hother)).trans_le (h.once other hother)

theorem drained_handle {call : MethodCall} {calls : List MethodCall}
    (hcalls : w.calls = call :: calls) :
    World.drained { w with registry := (w.registry.handle call).1, calls } = w.drained := by
  unfold World.drained
  rw [hcalls]
  rfl

theorem Inv.handle (h : Inv w) {call : MethodCall} {calls : List MethodCall}
    (hcalls : w.calls = call :: calls) :
    Inv { w with registry := (w.registry.handle call).1, calls } := by
  refine ⟨h.kept.handle, h.unique, h.apart, ?_, ?_, h.vanished, h.once⟩
  · rw [drained_handle hcalls]
    exact h.known
  · rw [drained_handle hcalls]
    exact h.stands

/-- What the handlers leave of a client, once the prune task has taken a change. -/
theorem mem_drained_prune {signals : List NameOwnerChanged} (hname : name ≠ "") :
    name ∈ World.drained { w with registry := w.registry.prune change, signals } ↔
      (lastCall w.calls name).elim
        (name ∈ w.registry.clients ∧ ¬ (change = ⟨name, none⟩ ∧ isUnique name = true))
        (· = .registerClient) := by
  rw [← mem_prune]
  exact mem_handleAll hname

/-- Other clients stay as they are. -/
theorem mem_drained_prune_of_ne {signals : List NameOwnerChanged} (hname : name ≠ "")
    (hne : change ≠ ⟨name, none⟩) :
    name ∈ World.drained { w with registry := w.registry.prune change, signals } ↔
      name ∈ w.drained := by
  rw [mem_drained_prune hname, and_iff_left fun hchange => hne hchange.1]
  exact (mem_handleAll hname).symm

/-- A change at the head of the queue is not of a name that is there, or that is told of again. -/
theorem Inv.head_ne (h : Inv w) {signals : List NameOwnerChanged}
    (hsignals : w.signals = change :: signals)
    (hname : name ∈ w.connected ∨ (name ∈ w.gone ∧ ⟨name, none⟩ ∈ signals)) :
    change ≠ ⟨name, none⟩ := by
  rintro rfl
  rcases hname with hconnected | ⟨hgone, htold⟩
  · refine h.apart name hconnected (h.vanished name (h.unique name (.inl hconnected)) ?_)
    rw [hsignals]
    exact List.mem_cons_self
  · have honce := h.once name (h.unique name (.inr hgone))
    rw [hsignals, List.count_cons_self] at honce
    exact absurd (List.count_pos_iff.mpr htold) (by omega)

theorem Inv.prune (h : Inv w) {signals : List NameOwnerChanged}
    (hsignals : w.signals = change :: signals) :
    Inv { w with registry := w.registry.prune change, signals } := by
  have htail : ∀ other, other ∈ signals → other ∈ w.signals := fun other hother => by
    rw [hsignals]
    exact List.mem_cons_of_mem _ hother
  refine ⟨h.kept.prune, h.unique, h.apart, ?_, ?_, ?_, ?_⟩
  · intro other hother
    refine h.known other (hother.imp_left fun hdrained => ?_)
    exact handleAll_subset (fun name hname => (mem_prune.mp hname).1) hdrained
  · intro other hother
    have hunique : isUnique other = true := h.unique other (hother.imp_right And.left)
    rw [mem_drained_prune_of_ne (isUnique_ne_empty hunique) (h.head_ne hsignals hother)]
    exact h.stands other (hother.imp_right fun htold => ⟨htold.1, htail _ htold.2⟩)
  · exact fun other hother htold => h.vanished other hother (htail _ htold)
  · intro other hother
    have honce := h.once other hother
    rw [hsignals, List.count_cons] at honce
    exact Nat.le_of_add_right_le honce

theorem Inv.act (h : Inv w) {a : Act} {w' : World} (hw : w.act a = some w') : Inv w' := by
  cases a with
  | connect name =>
    simp only [World.act] at hw
    split at hw <;> cases hw
    rename_i hnew
    exact h.connect hnew.1 hnew.2.1 hnew.2.2
  | call name method =>
    simp only [World.act] at hw
    split at hw <;> cases hw
    rename_i hconnected
    exact h.call hconnected method
  | vanish name =>
    simp only [World.act] at hw
    split at hw <;> cases hw
    rename_i hconnected
    exact h.vanish hconnected
  | owns name owner =>
    simp only [World.act] at hw
    split at hw <;> cases hw
    rename_i hunique
    exact h.owns hunique owner
  | subscribe =>
    cases hw
    exact ⟨h.kept, h.unique, h.apart, h.known, h.stands, h.vanished, h.once⟩
  | handle =>
    simp only [World.act] at hw
    split at hw <;> cases hw
    rename_i hcalls
    exact h.handle hcalls
  | prune =>
    simp only [World.act] at hw
    split at hw <;> cases hw
    rename_i hsignals
    exact h.prune hsignals

/-! ## Ghosts -/

/-- Every client is there, or the prune task is still to hear that it is not. -/
def Clean (w : World) : Prop := ∀ name ∈ w.drained, name ∈ w.connected ∨ w.Unheard name

/-- A client that has vanished, and that nobody will take out of the registry any more. -/
def Ghost (w : World) (name : String) : Prop :=
  name ∈ w.gone ∧ name ∈ w.drained ∧ (⟨name, none⟩ : NameOwnerChanged) ∉ w.signals

theorem Inv.clean_act (h : Inv w) (hclean : w.Clean) {a : Act} {w' : World}
    (hw : w.act a = some w') (htimely : w.timely a = true) : w'.Clean := by
  cases a with
  | connect name =>
    simp only [World.act] at hw
    split at hw <;> cases hw
    intro other hother
    refine (hclean other hother).imp (Finset.mem_insert_of_mem ·) fun hunheard => ⟨hunheard.1, ?_⟩
    exact mem_tell_of_mem hunheard.2
  | call name method =>
    simp only [World.act] at hw
    split at hw <;> cases hw
    rename_i hconnected
    intro other hother
    rw [drained_call] at hother
    by_cases hne : name = other
    · exact .inl (hne ▸ hconnected)
    · exact hclean other ((mem_handle_of_ne hne).mp hother)
  | vanish name =>
    simp only [World.act] at hw
    split at hw <;> cases hw
    rename_i hconnected
    intro other hother
    by_cases heq : other = name
    · subst heq
      have hlast := (h.stands other (.inl hconnected)).mp hother
      have hsubscribed : w.subscribed = true := by simpa [timely, hlast] using htimely
      refine .inr ⟨Finset.mem_insert_self _ _, ?_⟩
      show _ ∈ w.tell _
      unfold tell
      rw [if_pos hsubscribed]
      exact List.mem_append_right _ List.mem_cons_self
    · refine (hclean other hother).imp (fun hmem => Finset.mem_erase.mpr ⟨heq, hmem⟩) ?_
      exact fun hunheard => ⟨Finset.mem_insert_of_mem hunheard.1, mem_tell_of_mem hunheard.2⟩
  | owns name owner =>
    simp only [World.act] at hw
    split at hw <;> cases hw
    exact fun other hother => (hclean other hother).imp_right fun hunheard =>
      ⟨hunheard.1, mem_tell_of_mem hunheard.2⟩
  | subscribe =>
    cases hw
    exact hclean
  | handle =>
    simp only [World.act] at hw
    split at hw <;> cases hw
    rename_i hcalls
    intro other hother
    rw [drained_handle hcalls] at hother
    exact hclean other hother
  | prune =>
    simp only [World.act] at hw
    split at hw <;> cases hw
    rename_i change signals hsignals
    intro other hother
    have hdrained := handleAll_subset (fun name hname => (mem_prune.mp hname).1) hother
    refine (hclean other hdrained).imp_right fun hunheard => ⟨hunheard.1, ?_⟩
    have hunique := h.unique other (.inr hunheard.1)
    have hmem := hunheard.2
    rw [hsignals] at hmem
    rcases List.mem_cons.mp hmem with rfl | hmem
    · -- the registry has it again only through a call that the handlers had yet to take
      exfalso
      have hlast : lastCall w.calls other ≠ some .registerClient := by
        simpa [timely, hsignals, hunique] using htimely
      rw [mem_drained_prune (isUnique_ne_empty hunique)] at hother
      cases hcall : lastCall w.calls other with
      | none =>
        rw [hcall] at hother
        exact hother.2 ⟨rfl, hunique⟩
      | some method =>
        rw [hcall] at hother hlast
        exact hlast (congrArg some hother)
    · exact hmem

theorem Inv.ghost_of_act (h : Inv w) {a : Act} {w' : World} (hw : w.act a = some w')
    (htimely : w.timely a = false) : ∃ name, w'.Ghost name := by
  cases a with
  | vanish name =>
    simp only [World.act] at hw
    split at hw <;> cases hw
    rename_i hconnected
    have hlate : w.subscribed = false ∧ lastCall w.sent name = some .registerClient := by
      simpa [timely] using htimely
    refine ⟨name, Finset.mem_insert_self _ _, ?_, ?_⟩
    · exact (h.stands name (.inl hconnected)).mpr hlate.2
    · show _ ∉ w.tell _
      unfold tell
      rw [hlate.1, if_neg Bool.false_ne_true]
      exact fun hmem => h.apart name hconnected
        (h.vanished name (h.unique name (.inl hconnected)) hmem)
  | prune =>
    simp only [World.act] at hw
    split at hw <;> cases hw
    rename_i change signals hsignals
    obtain ⟨vanished, newOwner⟩ := change
    have hlate : (newOwner = none ∧ isUnique vanished = true) ∧
        lastCall w.calls vanished = some .registerClient := by
      simpa [timely, hsignals] using htimely
    obtain ⟨⟨rfl, hunique⟩, hlast⟩ := hlate
    have hgone : vanished ∈ w.gone :=
      h.vanished vanished hunique (hsignals ▸ List.mem_cons_self)
    refine ⟨vanished, hgone, ?_, fun htold => h.head_ne hsignals (.inr ⟨hgone, htold⟩) rfl⟩
    rw [mem_drained_prune (isUnique_ne_empty hunique), hlast]
    rfl
  | _ => cases htimely

theorem Inv.ghost_act (h : Inv w) (hghost : w.Ghost name) {a : Act} {w' : World}
    (hw : w.act a = some w') : w'.Ghost name := by
  obtain ⟨hgone, hdrained, htold⟩ := hghost
  have hunique := h.unique name (.inr hgone)
  have hconnected : name ∉ w.connected := fun hmem => h.apart name hmem hgone
  cases a with
  | connect other =>
    simp only [World.act] at hw
    split at hw <;> cases hw
    refine ⟨hgone, hdrained, fun hmem => htold (mem_tell_of_ne ?_ hmem)⟩
    show (⟨other, some other⟩ : NameOwnerChanged) ≠ ⟨name, none⟩
    nofun
  | call other method =>
    simp only [World.act] at hw
    split at hw <;> cases hw
    rename_i hother
    refine ⟨hgone, ?_, htold⟩
    rw [drained_call]
    have hne : other ≠ name := fun heq => hconnected (heq ▸ hother)
    exact (mem_handle_of_ne hne).mpr hdrained
  | vanish other =>
    simp only [World.act] at hw
    split at hw <;> cases hw
    rename_i hother
    refine ⟨Finset.mem_insert_of_mem hgone, hdrained, fun hmem => htold (mem_tell_of_ne ?_ hmem)⟩
    intro heq
    injection heq with heq
    exact hconnected (heq ▸ hother)
  | owns other owner =>
    simp only [World.act] at hw
    split at hw <;> cases hw
    rename_i hother
    refine ⟨hgone, hdrained, fun hmem => htold (mem_tell_of_ne ?_ hmem)⟩
    intro heq
    injection heq with heq
    exact hother (heq ▸ hunique)
  | subscribe =>
    cases hw
    exact ⟨hgone, hdrained, htold⟩
  | handle =>
    simp only [World.act] at hw
    split at hw <;> cases hw
    rename_i hcalls
    refine ⟨hgone, ?_, htold⟩
    rw [drained_handle hcalls]
    exact hdrained
  | prune =>
    simp only [World.act] at hw
    split at hw <;> cases hw
    rename_i change signals hsignals
    rw [hsignals] at htold
    refine ⟨hgone, ?_, fun hmem => htold (List.mem_cons_of_mem _ hmem)⟩
    rw [mem_drained_prune_of_ne (isUnique_ne_empty hunique)]
    · exact hdrained
    · rintro rfl
      exact htold List.mem_cons_self

/-! ## Runs -/

theorem Inv.run (h : Inv w) {acts : List Act} {w' : World} (hrun : w.run acts = some w') :
    Inv w' := by
  induction acts generalizing w with
  | nil =>
    obtain rfl := Option.some.inj hrun
    exact h
  | cons a acts ih =>
    obtain ⟨next, hw, hrun⟩ := Option.bind_eq_some_iff.mp hrun
    exact ih (h.act hw) hrun

theorem Inv.ghost_run (h : Inv w) (hghost : w.Ghost name) {acts : List Act} {w' : World}
    (hrun : w.run acts = some w') : w'.Ghost name := by
  induction acts generalizing w with
  | nil =>
    obtain rfl := Option.some.inj hrun
    exact hghost
  | cons a acts ih =>
    obtain ⟨next, hw, hrun⟩ := Option.bind_eq_some_iff.mp hrun
    exact ih (h.act hw) (h.ghost_act hghost hw) hrun

/-- A run leaves a ghost exactly where one of its steps is not timely. -/
theorem Inv.run_cases (h : Inv w) (hclean : w.Clean) {acts : List Act} {w' : World}
    (hrun : w.run acts = some w') :
    (w.orderly acts = true ∧ w'.Clean) ∨ (w.orderly acts = false ∧ ∃ name, w'.Ghost name) := by
  induction acts generalizing w with
  | nil =>
    obtain rfl := Option.some.inj hrun
    exact .inl ⟨rfl, hclean⟩
  | cons a acts ih =>
    obtain ⟨next, hw, hrun⟩ := Option.bind_eq_some_iff.mp hrun
    have horderly : w.orderly (a :: acts) = (w.timely a && next.orderly acts) := by
      rw [orderly, hw]
      rfl
    rw [horderly]
    cases htimely : w.timely a with
    | true =>
      rw [Bool.true_and]
      exact ih (h.act hw) (h.clean_act hclean hw htimely) hrun
    | false =>
      obtain ⟨name, hghost⟩ := h.ghost_of_act hw htimely
      exact .inr ⟨rfl, name, (h.act hw).ghost_run hghost hrun⟩

end

/-- **There is no ghost client** once both queues are empty, exactly if every step was timely. -/
theorem noGhost_iff (acts : List Act) (w : World) (hrun : World.run {} acts = some w)
    (hcalls : w.calls = []) (hsignals : w.signals = []) :
    w.NoGhost ↔ World.orderly {} acts = true := by
  have hinv := inv_init.run hrun
  have hdrained : w.drained = w.registry.clients := by
    unfold drained
    rw [hcalls]
    rfl
  have hclean : Clean {} := nofun
  rcases inv_init.run_cases hclean hrun with ⟨horderly, hclean⟩ | ⟨horderly, name, hghost⟩
  · refine iff_of_true ?_ horderly
    have hmem : ∀ name, name ∈ w.registry.clients ↔ w.Stands name := by
      intro name
      rw [← hdrained]
      constructor
      · intro hname
        have hconnected : name ∈ w.connected := (hclean name hname).resolve_right fun hunheard => by
          have hmem := hunheard.2
          rw [hsignals] at hmem
          cases hmem
        exact ⟨hconnected, (hinv.stands name (.inl hconnected)).mp hname⟩
      · exact fun hstands => (hinv.stands name (.inl hstands.1)).mpr hstands.2
    refine ⟨hmem, ?_⟩
    rw [hinv.kept, decide_eq_true_iff, ← Finset.nonempty_iff_ne_empty]
    exact exists_congr hmem
  · rw [horderly]
    refine iff_of_false (fun hnone => ?_) Bool.false_ne_true
    have hname := hghost.2.1
    rw [hdrained] at hname
    exact hinv.apart name ((hnone.1 name).mp hname).1 hghost.1

/-- Two clients register, one of them crashes and comes back under another name. -/
def comesBack : List Act :=
  [.subscribe, .connect ":1.7", .connect ":1.8", .call ":1.7" .registerClient,
    .call ":1.8" .registerClient, .prune, .handle, .handle, .vanish ":1.7", .prune, .prune,
    .connect ":1.9", .call ":1.9" .registerClient, .prune, .handle]

theorem comesBack_noGhost : ∃ w, World.run {} comesBack = some w ∧
    w.registry.clients = {":1.8", ":1.9"} ∧ w.NoGhost := by
  have hrun : (World.run {} comesBack).map
      (fun w => (w.registry.clients, w.calls, w.signals)) =
        some ({":1.8", ":1.9"}, [], []) := by decide +kernel
  obtain ⟨w, hrun, heq⟩ := Option.map_eq_some_iff.mp hrun
  injection heq with hclients heq
  injection heq with hcalls hsignals
  exact ⟨w, hrun, hclients, (noGhost_iff comesBack w hrun hcalls hsignals).mpr (by decide +kernel)⟩

/-- A client crashes after `RegisterClient`, and is pruned before it is in the registry. -/
theorem pruned_first : ∃ w,
    World.run {} [.subscribe, .connect ":1.7", .call ":1.7" .registerClient, .vanish ":1.7", .prune,
        .prune, .handle] = some w ∧
      w.calls = [] ∧ w.signals = [] ∧ w.connected = ∅ ∧ w.registry.clients = {":1.7"} ∧
      w.registry.hasClients = true ∧ ¬ w.NoGhost := by
  have hrun : (World.run {} [.subscribe, .connect ":1.7", .call ":1.7" .registerClient,
      .vanish ":1.7", .prune, .prune, .handle]).map
        (fun w => (w.calls, w.signals, w.connected, w.registry)) =
      some ([], [], ∅, ⟨{":1.7"}, true⟩) := by decide +kernel
  obtain ⟨w, hrun, heq⟩ := Option.map_eq_some_iff.mp hrun
  injection heq with hcalls heq
  injection heq with hsignals heq
  injection heq with hconnected hregistry
  refine ⟨w, hrun, hcalls, hsignals, hconnected, congrArg ClientRegistry.clients hregistry,
    congrArg ClientRegistry.hasClients hregistry, fun hnone => ?_⟩
  have hmem : ":1.7" ∈ w.registry.clients := by
    rw [hregistry]
    exact Finset.mem_singleton_self _
  have hstands := ((hnone.1 ":1.7").mp hmem).1
  rw [hconnected] at hstands
  cases hstands

end World

end Clients

end Desktop

end Myna

import Myna.Config.BackendController
import Myna.Lib.History
import Myna.Lib.StepSystem

/-!
# Myna — a page shows its latest read

The controller with its callers: reads and discoveries that are under way, in any order of begins,
completions and cancellations. A caller completes a read only while its token is not cancelled. The
history records what has happened, a read by the token it was given.

* **`World.Step`** — the steps;
* **`Inv`** — how tokens, generations and pages hang together;
* **`pages_show_latest`** — what holds after every run.
-/

namespace Myna

namespace Config

namespace Pages

variable {S : Type}

/-! ## Histories -/

inductive PageEvent (S : Type)
  | began (snap : String) (token : Token)
  | shown (snap : String) (token : Token) (snapshot : S)
  | readBack (snap : String) (snapshot : S)
  | cancelledPage (snap : String)
  | cancelledAll
  | added (snap : String)
  | removed (snap : String)
  | discovering (generation : ℕ)
  | discovered (generation : ℕ)

namespace PageEvent

/-- After which a read of the page that had begun before is of no more use. -/
def Ends (snap : String) : PageEvent S → Prop
  | began other _ | readBack other _ | cancelledPage other | removed other => other = snap
  | cancelledAll => True
  | _ => False

/-- What a page holds after an event, with what it held before. -/
def hold (snap : String) (held : Option S) : PageEvent S → Option S
  | shown other _ snapshot | readBack other snapshot => if other = snap then some snapshot else held
  | added other => if other = snap then none else held
  | _ => held

def newest (generation : ℕ) : PageEvent S → ℕ
  | discovering generation => generation
  | _ => generation

end PageEvent

open PageEvent

/-- The last read or read-back of a page since it was added. -/
def latest (snap : String) (history : List (PageEvent S)) : Option S :=
  history.foldl (hold snap) none

/-- The discovery begun last. -/
def lastBegun (history : List (PageEvent S)) : ℕ := history.foldl newest 0

/-- Nothing has ended the read of `snap` with this token since it began. -/
def Fresh (history : List (PageEvent S)) (snap : String) (token : Token) : Prop :=
  ∃ before since, history = before ++ began snap token :: since ∧ ∀ e ∈ since, ¬ Ends snap e

/-- What each event owes to the events before it: a read begins once, and is shown only while
nothing has ended it; discoveries are numbered, and what is applied is the one begun last. -/
def Owed (past : List (PageEvent S)) : PageEvent S → Prop
  | began _ token => ∀ snap, began snap token ∉ past
  | shown snap token _ => Fresh past snap token
  | discovering generation => generation = lastBegun past + 1
  | discovered generation => generation = lastBegun past ∧ 0 < generation
  | _ => True

/-! ## The world -/

structure World (S : Type) where
  inner : Inner S := {}
  /-- The reads and the discoveries whose callers wait for them. -/
  reads : List SnapshotRequest := []
  discoveries : List DiscoveryRequest := []
  history : List (PageEvent S) := []

namespace World

def page (w : World S) (snap : String) : Option (PageEntry S) := w.inner.pages.get? snap

def isCancelled (w : World S) (token : Token) : Bool := w.inner.tokens.isCancelled token

/-- The pages that a discovery adds, in the order in which it does. -/
def additions : List BackendIdentity → Inner S → List (PageEvent S)
  | [], _ => []
  | identity :: rest, inner =>
    (if (inner.pages.get? identity.snapName).isNone then [added identity.snapName] else []) ++
      additions rest (inner.discover identity).1

/-- What an accepted discovery does to the pages. -/
def turnover (inner : Inner S) (snapshot : ConnectionSnapshot) : List (PageEvent S) :=
  let gone := inner.removed (snapshot.backends.map BackendIdentity.snapName)
  gone.map removed ++ additions snapshot.backends (gone.foldl Inner.removePage inner)

def beginSnapshot (w : World S) (snap : String) : World S :=
  match w.inner.beginSnapshot snap with
  | none => w
  | some (request, inner, _) =>
    { w with
      inner
      reads := w.reads ++ [request]
      history := w.history ++ [began snap request.token] }

/-- The caller of a read has its answer. -/
def answer (w : World S) (request : SnapshotRequest) (snapshot : S) : World S :=
  let reads := w.reads.filter (· ≠ request)
  if w.isCancelled request.token then { w with reads }
  else
    match w.inner.completeSnapshot request snapshot with
    | (_, []) => { w with reads }
    | (inner, _) =>
      { w with
        inner
        reads
        history := w.history ++ [shown request.snap request.token snapshot] }

def applyReadback (w : World S) (snap : String) (snapshot : S) : World S :=
  match w.inner.applyReadback snap snapshot with
  | (_, []) => w
  | (inner, _) => { w with inner, history := w.history ++ [readBack snap snapshot] }

def cancelPage (w : World S) (snap : String) : World S :=
  { w with inner := w.inner.cancelPage snap, history := w.history ++ [cancelledPage snap] }

def cancelAll (w : World S) : World S :=
  { w with inner := w.inner.cancelAll, history := w.history ++ [cancelledAll] }

/-- A discovery that has begun. -/
def discovering (w : World S) : DiscoveryRequest × Inner S → World S
  | (request, inner) =>
    { w with
      inner
      discoveries := w.discoveries ++ [request]
      history := w.history ++ [.discovering request.generation] }

def beginDiscovery (w : World S) (now : ℕ) : World S :=
  w.discovering (w.inner.beginDiscovery now false)

def beginFocusDiscovery (w : World S) (now : ℕ) : World S :=
  match w.inner.beginFocusDiscovery now with
  | none => w
  | some begun => w.discovering begun

/-- The caller of a discovery has its answer; it does not look at the token. -/
def discoveryAnswer (w : World S) (request : DiscoveryRequest)
    (result : Except BackendSurfaceError ConnectionSnapshot) : World S :=
  let discoveries := w.discoveries.filter (· ≠ request)
  match w.inner.completeDiscovery request result, result with
  | (true, inner, _), .ok snapshot =>
    { w with
      inner
      discoveries
      history := w.history ++ discovered request.generation :: turnover w.inner snapshot }
  | (_, inner, _), _ => { w with inner, discoveries }

inductive Step : World S → World S → Prop
  | beginSnapshot (w : World S) (snap : String) : Step w (w.beginSnapshot snap)
  | answer (w : World S) (request : SnapshotRequest) (snapshot : S) (h : request ∈ w.reads) :
    Step w (w.answer request snapshot)
  | applyReadback (w : World S) (snap : String) (snapshot : S) :
    Step w (w.applyReadback snap snapshot)
  | cancelPage (w : World S) (snap : String) : Step w (w.cancelPage snap)
  | cancelAll (w : World S) : Step w w.cancelAll
  | beginDiscovery (w : World S) (now : ℕ) : Step w (w.beginDiscovery now)
  | beginFocusDiscovery (w : World S) (now : ℕ) : Step w (w.beginFocusDiscovery now)
  | discoveryAnswer (w : World S) (request : DiscoveryRequest)
    (result : Except BackendSurfaceError ConnectionSnapshot) (h : request ∈ w.discoveries) :
    Step w (w.discoveryAnswer request result)

/-- The states of a controller that has just been made, and of all runs from there. -/
def Reachable (w : World S) : Prop := StepSystem.Reachable Step {} w

end World

/-! ## Small facts of histories -/

section

variable {history more : List (PageEvent S)} {snap : String} {token : Token}

theorem latest_append (history more : List (PageEvent S)) (snap : String) :
    latest snap (history ++ more) = more.foldl (hold snap) (latest snap history) :=
  List.foldl_append

theorem lastBegun_append (history more : List (PageEvent S)) :
    lastBegun (history ++ more) = more.foldl newest (lastBegun history) :=
  List.foldl_append

theorem Fresh.append (h : Fresh history snap token) (hmore : ∀ e ∈ more, ¬ Ends snap e) :
    Fresh (history ++ more) snap token := by
  obtain ⟨before, since, rfl, hsince⟩ := h
  refine ⟨before, since ++ more, by simp, fun e hmem => ?_⟩
  rcases List.mem_append.mp hmem with hmem | hmem
  · exact hsince e hmem
  · exact hmore e hmem

theorem fresh_began (history : List (PageEvent S)) (snap : String) (token : Token) :
    Fresh (history ++ [began snap token]) snap token :=
  ⟨history, [], rfl, nofun⟩

end

/-! ## The invariant -/

/-- No page twice, or one page twice with no regard to its name and its connection. -/
def Alike (before after : Option (PageEntry S)) : Prop :=
  (before = none ∧ after = none) ∨ ∃ entry identity connection, before = some entry ∧
    after = some { entry with identity, connection }

theorem Alike.refl : ∀ page : Option (PageEntry S), Alike page page
  | none => .inl ⟨rfl, rfl⟩
  | some entry => .inr ⟨entry, entry.identity, entry.connection, rfl, rfl⟩

/-- The read's page waits for it, and nothing has ended it. -/
def Awaited (w : World S) (request : SnapshotRequest) : Prop :=
  Fresh w.history request.snap request.token ∧ ∃ entry, w.page request.snap = some entry ∧
    entry.inflightToken = some request.token ∧ request.generation = entry.snapshotGeneration ∧
    entry.latestCompletedSnapshot < request.generation

/-- A page between two steps. -/
structure PageOk (w : World S) (snap : String) (entry : PageEntry S) : Prop where
  loading : entry.loading = entry.inflightToken.isSome
  completed : entry.latestCompletedSnapshot ≤ entry.snapshotGeneration
  shows : entry.snapshot = latest snap w.history
  inflight : ∀ token, entry.inflightToken = some token → w.isCancelled token = false ∧
    ∃ request ∈ w.reads, request.snap = snap ∧ request.token = token

structure Inv (w : World S) : Prop where
  keys : (Dict.keys w.inner.pages).Nodup
  pages : ∀ snap entry, w.page snap = some entry → PageOk w snap entry
  awaited : ∀ request ∈ w.reads, w.isCancelled request.token = false → Awaited w request
  made : ∀ request ∈ w.reads, request.token < w.inner.tokens.made
  distinct : ∀ a ∈ w.reads, ∀ b ∈ w.reads, a.token = b.token → a = b
  nodup : w.reads.Nodup
  cancelled : ∀ token, w.isCancelled token = true → token < w.inner.tokens.made
  begun : ∀ snap token, began snap token ∈ w.history → token < w.inner.tokens.made
  discovery : ∀ token, w.inner.discoveryToken = some token →
    token < w.inner.tokens.made ∧ ∀ request ∈ w.reads, request.token ≠ token
  generation : w.inner.discoveryGeneration = lastBegun w.history
  lawful : History.Lawful Owed w.history

theorem inv_init : Inv ({} : World S) :=
  ⟨List.nodup_nil, nofun, nofun, nofun, nofun, List.nodup_nil, nofun, nofun, nofun, rfl,
    History.lawful_nil⟩

/-- Events that begin nothing and show no read, where `generation` is the discovery begun last. -/
def Plain (generation : ℕ) : PageEvent S → Prop
  | readBack .. | cancelledPage _ | cancelledAll | added _ | removed _ => True
  | discovered applied => applied = generation ∧ 0 < applied
  | _ => False

theorem lastBegun_plain {history es : List (PageEvent S)} {generation : ℕ}
    (hes : ∀ e ∈ es, Plain generation e) : lastBegun (history ++ es) = lastBegun history := by
  rw [lastBegun_append]
  induction es generalizing history with
  | nil => rfl
  | cons e es ih =>
    have hplain := hes e List.mem_cons_self
    have hnewest : newest (lastBegun history) e = lastBegun history := by
      cases e <;> first | rfl | exact absurd hplain id
    rw [List.foldl_cons, hnewest]
    exact ih fun e hmem => hes e (List.mem_cons_of_mem _ hmem)

theorem lawful_plain {history es : List (PageEvent S)} (h : History.Lawful Owed history)
    (hes : ∀ e ∈ es, Plain (lastBegun history) e) : History.Lawful Owed (history ++ es) := by
  refine h.append fun done e rest hsplit => ?_
  have hplain := hes e (by rw [hsplit]; simp)
  cases e with
  | discovered generation =>
    show generation = lastBegun (history ++ done) ∧ 0 < generation
    rw [lastBegun_plain fun e hmem => hes e (by rw [hsplit]; exact List.mem_append_left _ hmem)]
    exact hplain
  | _ => trivial

/-- What a step does that gives up the reads of the pages in `touched`, and of no other. -/
structure Touches (touched : String → Prop) (w w' : World S) (es : List (PageEvent S)) : Prop where
  keys : (Dict.keys w.inner.pages).Nodup → (Dict.keys w'.inner.pages).Nodup
  reads : w'.reads = w.reads
  made : w'.inner.tokens.made = w.inner.tokens.made
  discovery : w'.inner.discoveryToken = w.inner.discoveryToken ∨ w'.inner.discoveryToken = none
  generation : w'.inner.discoveryGeneration = w.inner.discoveryGeneration
  history : w'.history = w.history ++ es
  plain : ∀ e ∈ es, Plain (lastBegun w.history) e
  /-- The other pages keep their reads and what they show. -/
  others : ∀ snap, ¬ touched snap → Alike (w.page snap) (w'.page snap) ∧
    (∀ e ∈ es, ¬ Ends snap e) ∧ latest snap w'.history = latest snap w.history
  kept : ∀ token, w.isCancelled token = true → w'.isCancelled token = true
  cancels : ∀ snap entry token, touched snap → w.page snap = some entry →
    entry.inflightToken = some token → w'.isCancelled token = true
  cancelled : ∀ token, w'.isCancelled token = true → w.isCancelled token = true ∨
    w.inner.discoveryToken = some token ∨
    ∃ snap entry, touched snap ∧ w.page snap = some entry ∧ entry.inflightToken = some token
  idle : ∀ snap entry, touched snap → w'.page snap = some entry →
    entry.inflightToken = none ∧ entry.loading = false ∧
      entry.latestCompletedSnapshot ≤ entry.snapshotGeneration ∧
      entry.snapshot = latest snap w'.history

section

variable {w w' : World S} {es : List (PageEvent S)} {touched : String → Prop}

theorem Inv.not_cancelled (h : Inv w) (ht : Touches touched w w' es) {snap : String}
    (hsnap : ¬ touched snap) {entry : PageEntry S} (hentry : w.page snap = some entry)
    {token : Token} (htoken : entry.inflightToken = some token) : w'.isCancelled token = false := by
  obtain ⟨hlive, request, hmem, rfl, rfl⟩ := (h.pages snap entry hentry).inflight token htoken
  rw [← Bool.not_eq_true]
  intro hcancelled
  rcases ht.cancelled _ hcancelled with hold | hdiscovery | ⟨other, entry', htouched, hpage, heq⟩
  · rw [hlive] at hold
    cases hold
  · exact (h.discovery _ hdiscovery).2 request hmem rfl
  · -- two pages do not wait for one read
    obtain ⟨-, request', hmem', rfl, htoken'⟩ := (h.pages other entry' hpage).inflight _ heq
    obtain rfl := h.distinct request' hmem' request hmem htoken'
    exact hsnap htouched

theorem Inv.touch (h : Inv w) (ht : Touches touched w w' es) : Inv w' := by
  refine ⟨ht.keys h.keys, ?_, ?_, ?_, ?_, ?_, ?_, ?_, ?_, ?_, ?_⟩
  · intro snap entry hentry
    by_cases hsnap : touched snap
    · obtain ⟨htoken, hloading, hcompleted, hshows⟩ := ht.idle snap entry hsnap hentry
      refine ⟨by rw [hloading, htoken]; rfl, hcompleted, hshows, ?_⟩
      intro token heq
      rw [htoken] at heq
      cases heq
    · obtain ⟨hpage, -, hlatest⟩ := ht.others snap hsnap
      rcases hpage with ⟨-, hnone⟩ | ⟨before, identity, connection, hbefore, hafter⟩
      · rw [hnone] at hentry
        cases hentry
      obtain rfl := Option.some.inj (hafter.symm.trans hentry)
      have hok := h.pages snap before hbefore
      refine ⟨hok.loading, hok.completed, hok.shows.trans hlatest.symm, fun token htoken => ?_⟩
      refine ⟨h.not_cancelled ht hsnap hbefore htoken, ?_⟩
      rw [ht.reads]
      exact (hok.inflight token htoken).2
  · intro request hmem hlive
    rw [ht.reads] at hmem
    have hlive' : w.isCancelled request.token = false := by
      rw [← Bool.not_eq_true]
      intro hcancelled
      rw [ht.kept _ hcancelled] at hlive
      cases hlive
    obtain ⟨hfresh, entry, hentry, htoken, hgeneration⟩ := h.awaited request hmem hlive'
    have hsnap : ¬ touched request.snap := by
      intro hsnap
      rw [ht.cancels _ entry _ hsnap hentry htoken] at hlive
      cases hlive
    obtain ⟨hpage, hends, -⟩ := ht.others _ hsnap
    rw [hentry] at hpage
    rcases hpage with ⟨hnone, -⟩ | ⟨before, identity, connection, hbefore, hafter⟩
    · cases hnone
    obtain rfl := Option.some.inj hbefore
    refine ⟨?_, _, hafter, htoken, hgeneration⟩
    rw [ht.history]
    exact hfresh.append hends
  · rw [ht.reads, ht.made]
    exact h.made
  · rw [ht.reads]
    exact h.distinct
  · rw [ht.reads]
    exact h.nodup
  · intro token hcancelled
    rw [ht.made]
    rcases ht.cancelled token hcancelled with hold | hdiscovery | ⟨snap, entry, -, hentry, htoken⟩
    · exact h.cancelled token hold
    · exact (h.discovery token hdiscovery).1
    · obtain ⟨-, request, hmem, -, rfl⟩ := (h.pages snap entry hentry).inflight token htoken
      exact h.made request hmem
  · intro snap token hmem
    rw [ht.history] at hmem
    rw [ht.made]
    rcases List.mem_append.mp hmem with hmem | hmem
    · exact h.begun snap token hmem
    · exact absurd (ht.plain _ hmem) id
  · intro token htoken
    rw [ht.reads, ht.made]
    rcases ht.discovery with heq | heq
    · exact h.discovery token (heq ▸ htoken)
    · rw [heq] at htoken
      cases htoken
  · rw [ht.generation, ht.history, lastBegun_plain ht.plain]
    exact h.generation
  · rw [ht.history]
    exact lawful_plain h.lawful ht.plain

end

/-! ## Giving up reads -/

theorem isCancelled_cancel {tokens : Tokens} {token : Option Token} {other : Token} :
    (tokens.cancel token).isCancelled other = true ↔
      tokens.isCancelled other = true ∨ token = some other := by
  cases token with
  | none => simp [Tokens.isCancelled, Tokens.cancel]
  | some token => simp [Tokens.isCancelled, Tokens.cancel, eq_comm (a := other)]

/-- An event that is of no concern to a page. -/
def Elsewhere (snap : String) (e : PageEvent S) : Prop :=
  ¬ Ends snap e ∧ ∀ held, hold snap held e = held

theorem elsewhere_singleton {snap : String} {e : PageEvent S}
    (h : ∀ other, snap ≠ other → Elsewhere other e) :
    ∀ other, snap ≠ other → ∀ e' ∈ [e], Elsewhere other e' := by
  intro other hother e' hmem
  rw [List.mem_singleton.mp hmem]
  exact h other hother

theorem latest_elsewhere {history es : List (PageEvent S)} {snap : String}
    (h : ∀ e ∈ es, Elsewhere snap e) : latest snap (history ++ es) = latest snap history := by
  rw [latest_append]
  induction es generalizing history with
  | nil => rfl
  | cons e es ih =>
    rw [List.foldl_cons, (h e List.mem_cons_self).2]
    exact ih fun e hmem => h e (List.mem_cons_of_mem _ hmem)

section

variable {w : World S} {snap : String} {entry : PageEntry S}

/-- One page gives up its read. -/
theorem touches_page (entry' : PageEntry S) (es : List (PageEvent S))
    (hentry : w.page snap = some entry) (hplain : ∀ e ∈ es, Plain (lastBegun w.history) e)
    (hes : ∀ other, snap ≠ other → ∀ e ∈ es, Elsewhere other e)
    (hidle : entry'.inflightToken = none ∧ entry'.loading = false ∧
      entry'.latestCompletedSnapshot ≤ entry'.snapshotGeneration ∧
      entry'.snapshot = latest snap (w.history ++ es)) :
    Touches (· = snap) w
      { w with
        inner := { w.inner with
          pages := w.inner.pages.set snap entry'
          tokens := w.inner.tokens.cancel entry.inflightToken }
        history := w.history ++ es } es := by
  refine ⟨?_, rfl, rfl, .inl rfl, rfl, rfl, hplain, ?_, ?_, ?_, ?_, ?_⟩
  · intro hkeys
    rw [← Dict.keys_set hentry entry'] at hkeys
    exact hkeys
  · intro other hother
    have hother : snap ≠ other := fun heq => hother heq.symm
    refine ⟨?_, fun e hmem => (hes other hother e hmem).1, latest_elsewhere (hes other hother)⟩
    show Alike _ ((w.inner.pages.set snap entry').get? other)
    rw [Dict.get?_set, if_neg hother]
    exact .refl _
  · exact fun token hcancelled => isCancelled_cancel.mpr (.inl hcancelled)
  · rintro other entry'' token rfl hpage htoken
    rw [hentry] at hpage
    obtain rfl := Option.some.inj hpage
    exact isCancelled_cancel.mpr (.inr htoken)
  · intro token hcancelled
    rcases isCancelled_cancel.mp hcancelled with hold | hnew
    · exact .inl hold
    · exact .inr (.inr ⟨snap, entry, rfl, hentry, hnew⟩)
  · rintro other entry'' rfl hpage
    have hpage : (w.inner.pages.set other entry').get? other = some entry'' := hpage
    rw [Dict.get?_set, if_pos rfl] at hpage
    obtain rfl := Option.some.inj hpage
    exact hidle

/-- There is no page to give up a read. -/
theorem touches_nothing (es : List (PageEvent S)) (hnone : w.page snap = none)
    (hplain : ∀ e ∈ es, Plain (lastBegun w.history) e)
    (hes : ∀ other, snap ≠ other → ∀ e ∈ es, Elsewhere other e) :
    Touches (· = snap) w { w with history := w.history ++ es } es := by
  refine ⟨id, rfl, rfl, .inl rfl, rfl, rfl, hplain, ?_, fun _ => id, ?_, fun _ => .inl, ?_⟩
  · intro other hother
    have hother : snap ≠ other := fun heq => hother heq.symm
    exact ⟨.refl _, fun e hmem => (hes other hother e hmem).1, latest_elsewhere (hes other hother)⟩
  · rintro other entry token rfl hpage
    rw [hnone] at hpage
    cases hpage
  · rintro other entry rfl hpage
    have hpage : w.page other = some entry := hpage
    rw [hnone] at hpage
    cases hpage

theorem Inv.readBack (h : Inv w) (snapshot : S) : Inv (w.applyReadback snap snapshot) := by
  unfold World.applyReadback Inner.applyReadback
  cases hentry : w.inner.pages.get? snap with
  | none => exact h
  | some entry =>
    refine h.touch (touches_page _ _ hentry (by simp [Plain]) ?_ ?_)
    · exact elsewhere_singleton fun other hother => ⟨hother, fun held => if_neg hother⟩
    · refine ⟨rfl, rfl, (h.pages snap entry hentry).completed, ?_⟩
      rw [latest_append]
      exact (if_pos rfl).symm

theorem Inv.cancelPage (h : Inv w) : Inv (w.cancelPage snap) := by
  have helsewhere : ∀ other, snap ≠ other → ∀ e ∈ [cancelledPage (S := S) snap],
    Elsewhere other e :=
    elsewhere_singleton fun other hother => ⟨hother, fun held => rfl⟩
  unfold World.cancelPage Inner.cancelPage
  cases hentry : w.inner.pages.get? snap with
  | none => exact h.touch (touches_nothing _ hentry (by simp [Plain]) helsewhere)
  | some entry =>
    refine h.touch (touches_page _ _ hentry (by simp [Plain]) helsewhere ?_)
    refine ⟨rfl, rfl, (h.pages snap entry hentry).completed, ?_⟩
    rw [latest_append]
    exact (h.pages snap entry hentry).shows

/-- What is cancelled with every page. -/
theorem isCancelled_cancelAll {token : Token} :
    w.cancelAll.isCancelled token = true ↔ w.isCancelled token = true ∨
      w.inner.discoveryToken = some token ∨
      ∃ snap entry, (snap, entry) ∈ w.inner.pages ∧ entry.inflightToken = some token := by
  show (w.inner.tokens.cancelled ++ w.inner.discoveryToken.toList ++
    w.inner.pages.filterMap fun entry => entry.2.inflightToken).contains token = true ↔ _
  simp [World.isCancelled, Tokens.isCancelled]

theorem Inv.cancelAll (h : Inv w) : Inv w.cancelAll := by
  have ht : Touches (fun _ => True) w w.cancelAll [cancelledAll] := by
    refine ⟨?_, rfl, rfl, .inr rfl, rfl, rfl, by simp [Plain], ?_, ?_, ?_, ?_, ?_⟩
    · intro hkeys
      rw [← Dict.keys_mapVals fun _ entry => PageEntry.idle entry] at hkeys
      exact hkeys
    · exact fun snap hsnap => absurd trivial hsnap
    · exact fun token hcancelled => isCancelled_cancelAll.mpr (.inl hcancelled)
    · intro snap entry token _ hpage htoken
      exact isCancelled_cancelAll.mpr (.inr (.inr ⟨snap, entry, Dict.mem_of_get? hpage, htoken⟩))
    · intro token hcancelled
      rcases isCancelled_cancelAll.mp hcancelled with hold | hnew | ⟨snap, entry, hmem, htoken⟩
      · exact .inl hold
      · exact .inr (.inl hnew)
      · exact .inr (.inr ⟨snap, entry, trivial, Dict.get?_of_mem h.keys hmem, htoken⟩)
    · intro snap entry _ hpage
      have hpage : (Dict.mapVals (fun _ entry => PageEntry.idle entry) w.inner.pages).get? snap =
        some entry := hpage
      rw [Dict.get?_mapVals] at hpage
      obtain ⟨before, hbefore, rfl⟩ := Option.map_eq_some_iff.mp hpage
      refine ⟨rfl, rfl, (h.pages snap before hbefore).completed, ?_⟩
      show _ = latest snap (w.history ++ [cancelledAll])
      rw [latest_append]
      exact (h.pages snap before hbefore).shows
  exact h.touch ht

/-- A page that a discovery does not name any more. -/
def World.gone (w : World S) (snap : String) : World S :=
  { w with inner := w.inner.removePage snap, history := w.history ++ [removed snap] }

theorem Inv.gone (h : Inv w) : Inv (w.gone snap) := by
  have helsewhere : ∀ other, snap ≠ other → ∀ e ∈ [removed (S := S) snap], Elsewhere other e :=
    elsewhere_singleton fun other hother => ⟨hother, fun held => rfl⟩
  unfold World.gone Inner.removePage
  cases hentry : w.inner.pages.get? snap with
  | none => exact h.touch (touches_nothing _ hentry (by simp [Plain]) helsewhere)
  | some entry =>
    have ht : Touches (· = snap) w
        { w with
          inner := { w.inner with
            pages := w.inner.pages.remove snap
            tokens := w.inner.tokens.cancel entry.inflightToken }
          history := w.history ++ [removed snap] } [removed snap] := by
      refine ⟨fun hkeys => Dict.nodup_keys_remove hkeys snap, rfl, rfl, .inl rfl, rfl, rfl,
        by simp [Plain], ?_, ?_, ?_, ?_, ?_⟩
      · intro other hother
        have hother : snap ≠ other := fun heq => hother heq.symm
        refine ⟨?_, fun e hmem => (helsewhere other hother e hmem).1,
          latest_elsewhere (helsewhere other hother)⟩
        show Alike _ ((w.inner.pages.remove snap).get? other)
        rw [Dict.get?_remove, if_neg hother]
        exact .refl _
      · exact fun token hcancelled => isCancelled_cancel.mpr (.inl hcancelled)
      · rintro other entry' token rfl hpage htoken
        obtain rfl := Option.some.inj (hentry.symm.trans hpage)
        exact isCancelled_cancel.mpr (.inr htoken)
      · intro token hcancelled
        rcases isCancelled_cancel.mp hcancelled with hold | hnew
        · exact .inl hold
        · exact .inr (.inr ⟨snap, entry, rfl, hentry, hnew⟩)
      · rintro other entry' rfl hpage
        have hpage : (w.inner.pages.remove other).get? other = some entry' := hpage
        rw [Dict.get?_remove, if_pos rfl] at hpage
        cases hpage
    exact h.touch ht

end

/-! ## A read -/

section

variable {w : World S} {snap : String} {entry : PageEntry S} {request : SnapshotRequest}

/-- An idle page begins a read. -/
theorem Inv.launch (h : Inv w) (hentry : w.page snap = some entry)
    (hidle : entry.inflightToken = none)
    (hgeneration : entry.latestCompletedSnapshot < entry.snapshotGeneration) :
    Inv { w with
      inner := { w.inner with
        pages := w.inner.pages.set snap
          { entry with loading := true, inflightToken := some w.inner.tokens.made }
        tokens := w.inner.tokens.next }
      reads := w.reads ++ [⟨snap, entry.snapshotGeneration, w.inner.tokens.made⟩]
      history := w.history ++ [began snap w.inner.tokens.made] } := by
  have hunmade : ∀ token, w.isCancelled token = true → token ≠ w.inner.tokens.made :=
    fun token hcancelled => Nat.ne_of_lt (h.cancelled token hcancelled)
  have hlatest : ∀ other, latest other (w.history ++ [began snap w.inner.tokens.made]) =
      latest other w.history := fun other => latest_append _ _ _
  have hset : ∀ other, (w.inner.pages.set snap
      { entry with loading := true, inflightToken := some w.inner.tokens.made }).get? other =
      if snap = other then
        some { entry with loading := true, inflightToken := some w.inner.tokens.made }
      else w.page other := fun other => Dict.get?_set _ _ _ _
  refine ⟨?_, ?_, ?_, ?_, ?_, ?_, ?_, ?_, ?_, ?_, ?_⟩
  · have hkeys := h.keys
    rw [← Dict.keys_set hentry
      { entry with loading := true, inflightToken := some w.inner.tokens.made }] at hkeys
    exact hkeys
  · intro other entry' hpage
    have hpage := (hset other).symm.trans hpage
    by_cases hother : snap = other
    · rw [if_pos hother] at hpage
      obtain rfl := Option.some.inj hpage
      refine ⟨rfl, Nat.le_of_lt hgeneration, ?_, ?_⟩
      · exact (h.pages snap entry hentry).shows.trans (hother ▸ (hlatest snap).symm)
      · intro token htoken
        obtain rfl := Option.some.inj htoken
        refine ⟨?_, _, List.mem_append_right _ List.mem_cons_self, hother, rfl⟩
        rw [← Bool.not_eq_true]
        exact fun hcancelled => hunmade _ hcancelled rfl
    · rw [if_neg hother] at hpage
      have hok := h.pages other entry' hpage
      refine ⟨hok.loading, hok.completed, hok.shows.trans (hlatest other).symm, ?_⟩
      intro token htoken
      obtain ⟨hlive, request, hmem, heq⟩ := hok.inflight token htoken
      exact ⟨hlive, request, List.mem_append_left _ hmem, heq⟩
  · intro request hmem hlive
    rcases List.mem_append.mp hmem with hmem | hmem
    · obtain ⟨hfresh, entry', hpage, htoken, hrest⟩ := h.awaited request hmem hlive
      have hother : snap ≠ request.snap := by
        rintro rfl
        obtain rfl := Option.some.inj (hentry.symm.trans hpage)
        rw [hidle] at htoken
        cases htoken
      refine ⟨hfresh.append ?_, entry', ?_, htoken, hrest⟩
      · intro e hmem
        rw [List.mem_singleton.mp hmem]
        exact hother
      · exact (hset _).trans ((if_neg hother).trans hpage)
    · obtain rfl := List.mem_singleton.mp hmem
      refine ⟨fresh_began _ _ _, _, (hset snap).trans (if_pos rfl), rfl, rfl, hgeneration⟩
  · intro request hmem
    rcases List.mem_append.mp hmem with hmem | hmem
    · exact Nat.lt_succ_of_lt (h.made request hmem)
    · obtain rfl := List.mem_singleton.mp hmem
      exact Nat.lt_succ_self _
  · intro a ha b hb htoken
    rcases List.mem_append.mp ha with ha | ha <;> rcases List.mem_append.mp hb with hb | hb
    · exact h.distinct a ha b hb htoken
    · obtain rfl := List.mem_singleton.mp hb
      exact absurd htoken (Nat.ne_of_lt (h.made a ha))
    · obtain rfl := List.mem_singleton.mp ha
      exact absurd htoken.symm (Nat.ne_of_lt (h.made b hb))
    · rw [List.mem_singleton.mp ha, List.mem_singleton.mp hb]
  · refine h.nodup.append (List.nodup_singleton _) ?_
    intro a ha hb
    obtain rfl := List.mem_singleton.mp hb
    exact absurd (h.made _ ha) (Nat.lt_irrefl _)
  · exact fun token hcancelled => Nat.lt_succ_of_lt (h.cancelled token hcancelled)
  · intro other token hmem
    rcases List.mem_append.mp hmem with hmem | hmem
    · exact Nat.lt_succ_of_lt (h.begun other token hmem)
    · obtain ⟨-, rfl⟩ : other = snap ∧ token = w.inner.tokens.made := by simpa using hmem
      exact Nat.lt_succ_self _
  · intro token htoken
    obtain ⟨hlt, hne⟩ := h.discovery token htoken
    refine ⟨Nat.lt_succ_of_lt hlt, fun request hmem => ?_⟩
    rcases List.mem_append.mp hmem with hmem | hmem
    · exact hne request hmem
    · obtain rfl := List.mem_singleton.mp hmem
      exact (Nat.ne_of_lt hlt).symm
  · rw [lastBegun_append]
    exact h.generation
  · refine History.lawful_concat.mpr ⟨h.lawful, fun other hmem => ?_⟩
    exact absurd (h.begun other _ hmem) (Nat.lt_irrefl _)

theorem Inv.beginSnapshot (h : Inv w) : Inv (w.beginSnapshot snap) := by
  unfold World.beginSnapshot Inner.beginSnapshot
  cases hentry : w.inner.pages.get? snap with
  | none => exact h
  | some entry =>
    -- the page gives up the read it waited for, and begins another one
    have hok := h.pages snap entry hentry
    let idled : PageEntry S :=
      { entry with
        snapshotGeneration := entry.snapshotGeneration + 1
        loading := false
        inflightToken := none }
    have hshows : idled.snapshot = latest snap (w.history ++ []) := by
      rw [List.append_nil]
      exact hok.shows
    have hidle := h.touch (touches_page idled [] hentry nofun nofun
      ⟨rfl, rfl, Nat.le_succ_of_le hok.completed, hshows⟩)
    have hpage : (w.inner.pages.set snap idled).get? snap = some idled :=
      (Dict.get?_set _ _ _ _).trans (if_pos rfl)
    have hlaunched := hidle.launch hpage rfl (Nat.lt_succ_of_le hok.completed)
    dsimp only at hlaunched
    rw [Dict.set_set, List.append_nil] at hlaunched
    exact hlaunched

/-- The page of a read that waits takes what was read. -/
theorem Awaited.complete (h : Awaited w request) (snapshot : S) :
    ∃ entry, w.page request.snap = some entry ∧ entry.inflightToken = some request.token ∧
      request.generation = entry.snapshotGeneration ∧
      w.inner.completeSnapshot request snapshot =
        ({ w.inner with
          pages := w.inner.pages.set request.snap { entry with
            latestCompletedSnapshot := request.generation
            loading := false
            inflightToken := none
            snapshot := some snapshot } },
          [.backendChanged entry.identity]) := by
  obtain ⟨-, entry, hentry, htoken, hgeneration, hlt⟩ := h
  refine ⟨entry, hentry, htoken, hgeneration, ?_⟩
  have hpage : w.inner.pages.get? request.snap = some entry := hentry
  have hguard : ¬ (request.generation ≤ entry.latestCompletedSnapshot ∨
      request.generation ≠ entry.snapshotGeneration) := by
    rintro (hle | hne)
    · exact Nat.not_le_of_lt hlt hle
    · exact hne hgeneration
  unfold Inner.completeSnapshot
  rw [hpage]
  dsimp only
  rw [if_neg hguard]

/-- No two reads wait for one page. -/
theorem Inv.alone (h : Inv w) {a b : SnapshotRequest} (ha : a ∈ w.reads) (hb : b ∈ w.reads)
    (hlivea : w.isCancelled a.token = false) (hliveb : w.isCancelled b.token = false)
    (hsnap : a.snap = b.snap) : a = b := by
  obtain ⟨-, entry, hentry, htoken, -⟩ := h.awaited a ha hlivea
  obtain ⟨-, entry', hentry', htoken', -⟩ := h.awaited b hb hliveb
  rw [hsnap, hentry'] at hentry
  obtain rfl := Option.some.inj hentry
  exact h.distinct a ha b hb (Option.some.inj (htoken.symm.trans htoken'))

theorem mem_reads_drop {reads : List SnapshotRequest} {a : SnapshotRequest} :
    a ∈ reads.filter (· ≠ request) ↔ a ∈ reads ∧ a ≠ request := by
  simp

/-- A caller goes whose read was given up. -/
theorem Inv.drop (h : Inv w) (hcancelled : w.isCancelled request.token = true) :
    Inv { w with reads := w.reads.filter (· ≠ request) } := by
  refine ⟨h.keys, ?_, ?_, ?_, ?_, h.nodup.filter _, h.cancelled, h.begun, ?_, h.generation,
    h.lawful⟩
  · intro snap entry hentry
    have hok := h.pages snap entry hentry
    refine ⟨hok.loading, hok.completed, hok.shows, fun token htoken => ?_⟩
    obtain ⟨hlive, other, hmem, hsnap, rfl⟩ := hok.inflight token htoken
    refine ⟨hlive, other, mem_reads_drop.mpr ⟨hmem, ?_⟩, hsnap, rfl⟩
    rintro rfl
    rw [hcancelled] at hlive
    cases hlive
  · exact fun other hmem => h.awaited other (mem_reads_drop.mp hmem).1
  · exact fun other hmem => h.made other (mem_reads_drop.mp hmem).1
  · exact fun a ha b hb => h.distinct a (mem_reads_drop.mp ha).1 b (mem_reads_drop.mp hb).1
  · intro token htoken
    obtain ⟨hlt, hne⟩ := h.discovery token htoken
    exact ⟨hlt, fun other hmem => hne other (mem_reads_drop.mp hmem).1⟩

/-- A read lands on the page that waited for it. -/
theorem Inv.land (h : Inv w) (hmem : request ∈ w.reads)
    (hlive : w.isCancelled request.token = false) (hentry : w.page request.snap = some entry)
    (hgeneration : request.generation = entry.snapshotGeneration) (snapshot : S) :
    Inv { w with
      inner := { w.inner with
        pages := w.inner.pages.set request.snap { entry with
          latestCompletedSnapshot := request.generation
          loading := false
          inflightToken := none
          snapshot := some snapshot } }
      reads := w.reads.filter (· ≠ request)
      history := w.history ++ [shown request.snap request.token snapshot] } := by
  have hawaited := h.awaited request hmem hlive
  have hset : ∀ other, (w.inner.pages.set request.snap { entry with
      latestCompletedSnapshot := request.generation
      loading := false
      inflightToken := none
      snapshot := some snapshot }).get? other =
      if request.snap = other then
        some { entry with
          latestCompletedSnapshot := request.generation
          loading := false
          inflightToken := none
          snapshot := some snapshot }
      else w.page other := fun other => Dict.get?_set _ _ _ _
  have hlatest : ∀ other, latest other (w.history ++ [shown request.snap request.token snapshot]) =
      if request.snap = other then some snapshot else latest other w.history :=
    fun other => latest_append _ _ _
  refine ⟨?_, ?_, ?_, ?_, ?_, h.nodup.filter _, h.cancelled, ?_, ?_, ?_, ?_⟩
  · have hkeys := h.keys
    rw [← Dict.keys_set hentry { entry with
      latestCompletedSnapshot := request.generation
      loading := false
      inflightToken := none
      snapshot := some snapshot }] at hkeys
    exact hkeys
  · intro other entry' hpage
    have hpage := (hset other).symm.trans hpage
    by_cases hother : request.snap = other
    · rw [if_pos hother] at hpage
      obtain rfl := Option.some.inj hpage
      exact ⟨rfl, Nat.le_of_eq hgeneration, ((hlatest other).trans (if_pos hother)).symm, nofun⟩
    · rw [if_neg hother] at hpage
      have hok := h.pages other entry' hpage
      refine ⟨hok.loading, hok.completed,
        hok.shows.trans ((hlatest other).trans (if_neg hother)).symm, fun token htoken => ?_⟩
      obtain ⟨hlive', request', hmem', hsnap, heq⟩ := hok.inflight token htoken
      refine ⟨hlive', request', mem_reads_drop.mpr ⟨hmem', ?_⟩, hsnap, heq⟩
      rintro rfl
      exact hother hsnap
  · intro request' hmem' hlive'
    obtain ⟨hmem', hne⟩ := mem_reads_drop.mp hmem'
    obtain ⟨hfresh, entry', hpage, hrest⟩ := h.awaited request' hmem' hlive'
    have hother : request.snap ≠ request'.snap :=
      fun heq => hne (h.alone hmem' hmem hlive' hlive heq.symm)
    refine ⟨hfresh.append ?_, entry', (hset _).trans ((if_neg hother).trans hpage), hrest⟩
    intro e he
    rw [List.mem_singleton.mp he]
    exact id
  · exact fun other hmem => h.made other (mem_reads_drop.mp hmem).1
  · exact fun a ha b hb => h.distinct a (mem_reads_drop.mp ha).1 b (mem_reads_drop.mp hb).1
  · intro other token hbegan
    rcases List.mem_append.mp hbegan with hbegan | hbegan
    · exact h.begun other token hbegan
    · cases List.mem_singleton.mp hbegan
  · intro token htoken
    obtain ⟨hlt, hne⟩ := h.discovery token htoken
    exact ⟨hlt, fun other hmem => hne other (mem_reads_drop.mp hmem).1⟩
  · rw [lastBegun_append]
    exact h.generation
  · exact History.lawful_concat.mpr ⟨h.lawful, hawaited.1⟩

theorem Inv.answer (h : Inv w) (hmem : request ∈ w.reads) (snapshot : S) :
    Inv (w.answer request snapshot) := by
  unfold World.answer
  cases hlive : w.isCancelled request.token with
  | true => exact h.drop hlive
  | false =>
    obtain ⟨entry, hentry, -, hgeneration, hcomplete⟩ :=
      (h.awaited request hmem hlive).complete snapshot
    rw [if_neg Bool.false_ne_true, hcomplete]
    exact h.land hmem hlive hentry hgeneration snapshot

end

/-! ## A discovery -/

section

variable {w : World S}

theorem Inv.discovering (h : Inv w) (now : ℕ) (quiet : Bool) :
    Inv (w.discovering (w.inner.beginDiscovery now quiet)) := by
  -- the discovery before it is cancelled, and no page waits for that
  have hcancelled : ∀ token, (w.inner.tokens.cancel w.inner.discoveryToken).next.isCancelled token =
      true ↔ w.isCancelled token = true ∨ w.inner.discoveryToken = some token :=
    fun token => isCancelled_cancel
  have hlatest : ∀ snap,
    latest snap (w.history ++ [.discovering (w.inner.discoveryGeneration + 1)]) =
      latest snap w.history := fun snap => latest_append _ _ _
  refine ⟨h.keys, ?_, ?_, ?_, h.distinct, h.nodup, ?_, ?_, ?_, ?_, ?_⟩
  · intro snap entry hentry
    have hok := h.pages snap entry hentry
    refine ⟨hok.loading, hok.completed, hok.shows.trans (hlatest snap).symm, fun token htoken => ?_⟩
    obtain ⟨hlive, request, hmem, hsnap, rfl⟩ := hok.inflight token htoken
    refine ⟨?_, request, hmem, hsnap, rfl⟩
    rw [← Bool.not_eq_true]
    intro hnow
    rcases (hcancelled _).mp hnow with hold | hdiscovery
    · rw [hlive] at hold
      cases hold
    · exact (h.discovery _ hdiscovery).2 request hmem rfl
  · intro request hmem hlive
    have hlive' : w.isCancelled request.token = false := by
      rw [← Bool.not_eq_true]
      intro hold
      have hnow := (hcancelled request.token).mpr (.inl hold)
      exact absurd (hnow.symm.trans hlive) (by decide)
    obtain ⟨hfresh, hrest⟩ := h.awaited request hmem hlive'
    refine ⟨hfresh.append fun e he => ?_, hrest⟩
    rw [List.mem_singleton.mp he]
    exact id
  · exact fun request hmem => Nat.lt_succ_of_lt (h.made request hmem)
  · intro token hnow
    rcases (hcancelled token).mp hnow with hold | hdiscovery
    · exact Nat.lt_succ_of_lt (h.cancelled token hold)
    · exact Nat.lt_succ_of_lt (h.discovery token hdiscovery).1
  · intro snap token hmem
    rcases List.mem_append.mp hmem with hmem | hmem
    · exact Nat.lt_succ_of_lt (h.begun snap token hmem)
    · cases List.mem_singleton.mp hmem
  · intro token htoken
    obtain rfl := Option.some.inj htoken
    exact ⟨Nat.lt_succ_self _, fun request hmem => Nat.ne_of_lt (h.made request hmem)⟩
  · show _ = lastBegun (w.history ++ [.discovering (w.inner.discoveryGeneration + 1)])
    rw [lastBegun_append]
    rfl
  · exact History.lawful_concat.mpr ⟨h.lawful, congrArg (· + 1) h.generation⟩

/-- What changes but the names and the connections of pages, and the discovery's own state. -/
theorem Inv.restate (h : Inv w) {w' : World S} {es : List (PageEvent S)}
    (hkeys : (Dict.keys w.inner.pages).Nodup → (Dict.keys w'.inner.pages).Nodup)
    (hreads : w'.reads = w.reads) (htokens : w'.inner.tokens = w.inner.tokens)
    (hdiscovery : w'.inner.discoveryToken = w.inner.discoveryToken ∨
      w'.inner.discoveryToken = none)
    (hgeneration : w'.inner.discoveryGeneration = w.inner.discoveryGeneration)
    (hhistory : w'.history = w.history ++ es)
    (hplain : ∀ e ∈ es, Plain (lastBegun w.history) e) (hes : ∀ snap, ∀ e ∈ es, Elsewhere snap e)
    (hpages : ∀ snap, Alike (w.page snap) (w'.page snap)) : Inv w' := by
  have ht : Touches (fun _ => False) w w' es := by
    refine ⟨hkeys, hreads, by rw [htokens], hdiscovery, hgeneration, hhistory,
      hplain, ?_, ?_, nofun,
      ?_, nofun⟩
    · intro snap _
      refine ⟨hpages snap, fun e hmem => (hes snap e hmem).1, ?_⟩
      rw [hhistory]
      exact latest_elsewhere (hes snap)
    · intro token hcancelled
      unfold World.isCancelled
      rw [htokens]
      exact hcancelled
    · intro token hcancelled
      unfold World.isCancelled at hcancelled
      rw [htokens] at hcancelled
      exact .inl hcancelled
  exact h.touch ht

/-- A discovered backend, whose page is made where there is none. -/
def World.found (w : World S) (identity : BackendIdentity) : World S :=
  { w with
    inner := (w.inner.discover identity).1
    history := w.history ++
      if (w.inner.pages.get? identity.snapName).isNone then [added identity.snapName] else [] }

theorem Inv.found (h : Inv w) (identity : BackendIdentity) : Inv (w.found identity) := by
  unfold World.found Inner.discover
  cases hentry : w.inner.pages.get? identity.snapName with
  | none =>
    have ht : Touches (· = identity.snapName) w
        { w with
          inner := { w.inner with
            pages := w.inner.pages.insertSorted identity.snapName { identity } }
          history := w.history ++ [added identity.snapName] } [added identity.snapName] := by
      refine ⟨fun hkeys => Dict.nodup_keys_insertSorted hkeys hentry _, rfl, rfl,
        .inl rfl, rfl, rfl,
        by simp [Plain], ?_, fun _ => id, ?_, fun _ => .inl, ?_⟩
      · intro snap hsnap
        have hsnap : identity.snapName ≠ snap := fun heq => hsnap heq.symm
        refine ⟨?_, ?_, ?_⟩
        · show Alike _ ((w.inner.pages.insertSorted identity.snapName _).get? snap)
          rw [Dict.get?_insertSorted hentry, if_neg hsnap]
          exact .refl _
        · intro e hmem
          rw [List.mem_singleton.mp hmem]
          exact id
        · show latest snap (w.history ++ [added identity.snapName]) = _
          rw [latest_append]
          exact if_neg hsnap
      · rintro snap entry token rfl hpage
        cases hentry.symm.trans hpage
      · rintro snap entry rfl hpage
        have hpage : (w.inner.pages.insertSorted identity.snapName _).get? identity.snapName =
          some entry := hpage
        rw [Dict.get?_insertSorted hentry, if_pos rfl] at hpage
        obtain rfl := Option.some.inj hpage
        refine ⟨rfl, rfl, Nat.le_refl 0, ?_⟩
        show none = latest identity.snapName (w.history ++ [added identity.snapName])
        rw [latest_append]
        exact (if_pos rfl).symm
    exact h.touch ht
  | some entry =>
    have hpage : w.page identity.snapName = some entry := hentry
    dsimp only
    split
    · refine h.restate ?_ rfl rfl (.inl rfl) rfl rfl nofun (fun _ => nofun) ?_
      · intro hkeys
        rw [← Dict.keys_set hentry { entry with identity }] at hkeys
        exact hkeys
      · intro snap
        show Alike _ ((w.inner.pages.set identity.snapName { entry with identity }).get? snap)
        rw [Dict.get?_set]
        by_cases hsnap : identity.snapName = snap
        · rw [if_pos hsnap, ← hsnap]
          exact .inr ⟨entry, identity, entry.connection, hpage, rfl⟩
        · rw [if_neg hsnap]
          exact .refl _
    · exact h.restate id rfl rfl (.inl rfl) rfl rfl nofun (fun _ => nofun) fun snap => .refl _

/-- The discovery's own state when its answer is applied. -/
def settled (inner : Inner S) (generation : ℕ) : Inner S :=
  { inner with
    latestCompletedDiscovery := generation
    discoveryLoading := false
    discoveryToken := none
    lastDiscoveryError := none }

theorem removePage_settled (inner : Inner S) (generation : ℕ) (snap : String) :
    (settled inner generation).removePage snap = settled (inner.removePage snap) generation := by
  have hpages : (settled inner generation).pages = inner.pages := rfl
  unfold Inner.removePage
  rw [hpages]
  cases inner.pages.get? snap <;> rfl

theorem discover_settled (inner : Inner S) (generation : ℕ) (identity : BackendIdentity) :
    ((settled inner generation).discover identity).1 =
      settled (inner.discover identity).1 generation := by
  have hpages : (settled inner generation).pages = inner.pages := rfl
  unfold Inner.discover
  rw [hpages]
  cases inner.pages.get? identity.snapName with
  | none => rfl
  | some entry =>
    dsimp only
    split <;> rfl

theorem additions_settled (backends : List BackendIdentity) (inner : Inner S) (generation : ℕ) :
    World.additions backends (settled inner generation) = World.additions backends inner := by
  induction backends generalizing inner with
  | nil => rfl
  | cons identity rest ih =>
    rw [World.additions, World.additions, discover_settled, ih]
    rfl

theorem turnover_settled (inner : Inner S) (generation : ℕ) (snapshot : ConnectionSnapshot) :
    World.turnover (settled inner generation) snapshot = World.turnover inner snapshot := by
  unfold World.turnover
  dsimp only
  rw [List.foldl_hom (settled · generation) fun inner snap =>
    removePage_settled inner generation snap,
    additions_settled]
  rfl

theorem foldl_gone (gone : List String) (w : World S) :
    gone.foldl World.gone w =
      { w with
        inner := gone.foldl Inner.removePage w.inner
        history := w.history ++ gone.map removed } := by
  induction gone generalizing w with
  | nil => rw [List.map_nil, List.append_nil]; rfl
  | cons snap rest ih =>
    rw [List.foldl_cons, ih]
    simp [World.gone]

theorem foldl_found (backends : List BackendIdentity) (w : World S) (changed : Bool)
    (events : List ControllerEvent) :
    backends.foldl World.found w =
      { w with
        inner := (Inner.discoverAll backends (w.inner, changed, events)).1
        history := w.history ++ World.additions backends w.inner } := by
  induction backends generalizing w changed events with
  | nil => rw [World.additions, List.append_nil]; rfl
  | cons identity rest ih =>
    rw [List.foldl_cons, ih (w.found identity) (changed || (w.inner.discover identity).2.1)
      (events ++ (w.inner.discover identity).2.2), World.additions, ← List.append_assoc]
    rfl

/-- Each page keeps its reads when a discovery says again how it is connected. -/
theorem alike_mapVals (pages : Dict String (PageEntry S)) (active : ActiveBackendState)
    (snap : String) :
    Alike (pages.get? snap) (Dict.get? (Dict.mapVals
      (fun name entry => { entry with connection := connectionKind active name }) pages) snap) := by
  rw [Dict.get?_mapVals]
  cases pages.get? snap with
  | none => exact .refl _
  | some entry => exact .inr ⟨entry, entry.identity, connectionKind active snap, rfl, rfl⟩

/-- A discovery's answer that is applied. -/
theorem Inv.applied (h : Inv w) {generation : ℕ} (hlast : generation = w.inner.discoveryGeneration)
    (hpos : 0 < generation) (discoveries : List DiscoveryRequest) (snapshot : ConnectionSnapshot) :
    Inv { w with
      inner := ((settled w.inner generation).applyDiscovery snapshot).1
      discoveries
      history := w.history ++ discovered generation :: World.turnover w.inner snapshot } := by
  let noted : World S :=
    { w with
      inner := settled w.inner generation
      discoveries
      history := w.history ++ [discovered generation] }
  have hnoted : Inv noted := by
    refine h.restate id rfl rfl (.inr rfl) rfl rfl ?_ ?_ fun snap => .refl _
    · intro e hmem
      rw [List.mem_singleton.mp hmem]
      exact ⟨hlast.trans h.generation, hpos⟩
    · intro snap e hmem
      rw [List.mem_singleton.mp hmem]
      exact ⟨id, fun held => rfl⟩
  have hgone : ∀ (gone : List String) (w : World S), Inv w → Inv (gone.foldl World.gone w) :=
    fun gone w hw => List.foldlRecOn gone World.gone hw fun w hw snap _ => hw.gone
  have hfound : ∀ (backends : List BackendIdentity) (w : World S), Inv w →
      Inv (backends.foldl World.found w) :=
    fun backends w hw => List.foldlRecOn backends World.found hw fun w hw identity _ =>
      hw.found identity
  let gone := w.inner.removed (snapshot.backends.map BackendIdentity.snapName)
  have hturned := hfound snapshot.backends _ (hgone gone noted hnoted)
  rw [foldl_found _ _ (!gone.isEmpty) [], foldl_gone] at hturned
  have hhistory : w.history ++ discovered generation :: World.turnover w.inner snapshot =
      noted.history ++ gone.map removed ++
        World.additions snapshot.backends (gone.foldl Inner.removePage noted.inner) ++ [] := by
    rw [← turnover_settled w.inner generation, List.append_nil]
    simp only [World.turnover, noted, gone, List.append_assoc, List.cons_append, List.nil_append]
    rfl
  refine hturned.restate ?_ rfl rfl (.inl rfl) rfl hhistory nofun (fun _ => nofun) fun snap => ?_
  · intro hkeys
    rw [← Dict.keys_mapVals fun name entry =>
      ({ entry with connection := connectionKind snapshot.activeState name } : PageEntry S)]
        at hkeys
    exact hkeys
  · exact alike_mapVals _ _ _

theorem accepts_eq_true {inner : Inner S} {request : DiscoveryRequest}
    (h : inner.accepts request = true) :
    request.generation = inner.discoveryGeneration ∧ 0 < request.generation := by
  simp [Inner.accepts] at h
  exact ⟨h.2, Nat.zero_lt_of_lt h.1⟩

theorem Inv.discoveryAnswer (h : Inv w) (request : DiscoveryRequest)
    (result : Except BackendSurfaceError ConnectionSnapshot) :
    Inv (w.discoveryAnswer request result) := by
  unfold World.discoveryAnswer Inner.completeDiscovery
  cases haccepts : w.inner.accepts request with
  | false =>
    exact h.restate id rfl rfl (.inl rfl) rfl (List.append_nil _).symm nofun (fun _ => nofun)
      fun snap => .refl _
  | true =>
    cases result with
    | error error =>
      exact h.restate id rfl rfl (.inr rfl) rfl (List.append_nil _).symm nofun (fun _ => nofun)
        fun snap => .refl _
    | ok snapshot =>
      obtain ⟨hlast, hpos⟩ := accepts_eq_true haccepts
      exact h.applied hlast hpos _ snapshot

end

/-! ## Runs -/

theorem Inv.step {w w' : World S} (h : Inv w) (hstep : World.Step w w') : Inv w' := by
  cases hstep with
  | beginSnapshot snap => exact h.beginSnapshot
  | answer request snapshot hmem => exact h.answer hmem snapshot
  | applyReadback snap snapshot => exact h.readBack snapshot
  | cancelPage snap => exact h.cancelPage
  | cancelAll => exact h.cancelAll
  | beginDiscovery now => exact h.discovering now false
  | beginFocusDiscovery now =>
    unfold World.beginFocusDiscovery Inner.beginFocusDiscovery
    dsimp only
    split
    · rename_i hnone
      exact h
    · rename_i begun hsome
      split at hsome
      · cases hsome
      · obtain rfl := Option.some.inj hsome
        exact h.discovering now true
  | discoveryAnswer request result hmem => exact h.discoveryAnswer request result

theorem Inv.reachable {w : World S} (h : w.Reachable) : Inv w :=
  StepSystem.reachable_induction h inv_init fun _ _ hs hstep => hs.step hstep

/-- No read is shown after what ended it. -/
def NoneStale (history : List (PageEvent S)) : Prop :=
  ∀ before e since snap token snapshot later,
    history = before ++ e :: since ++ shown snap token snapshot :: later →
      Ends snap e → began snap token ∉ before

/-- A discovery that is applied is the one begun last. -/
def AppliesLast (history : List (PageEvent S)) : Prop :=
  ∀ past generation later, history = past ++ discovered generation :: later →
    ∃ before since, past = before ++ .discovering generation :: since ∧
      ∀ other, .discovering other ∉ since

theorem noneStale_of_lawful {history : List (PageEvent S)} (h : History.Lawful Owed history) :
    NoneStale history := by
  intro before e since snap token snapshot later hsplit hends hmem
  obtain ⟨first, rest, hpast, hrest⟩ := h _ _ later hsplit
  have hfirst : began snap token ∉ first := by
    rw [hpast, List.append_assoc] at hsplit
    exact h first _ _ hsplit snap
  rcases List.append_eq_append_iff.mp hpast with ⟨more, rfl, -⟩ | ⟨more, rfl, htail⟩
  · exact hfirst (List.mem_append_left _ hmem)
  · -- the read began before what ended it, so that came while the read was fresh
    cases more with
    | nil => exact hfirst (by rwa [List.append_nil] at hmem)
    | cons e' more =>
      obtain ⟨-, rfl⟩ := List.cons.inj htail
      exact hrest e (by simp) hends

theorem exists_lastBegun {history : List (PageEvent S)} (hpos : 0 < lastBegun history) :
    ∃ before since, history = before ++ .discovering (lastBegun history) :: since ∧
      ∀ other, .discovering other ∉ since := by
  induction history using List.reverseRecOn with
  | nil => exact absurd hpos (Nat.lt_irrefl 0)
  | append_singleton history e ih =>
    rw [lastBegun_append] at hpos ⊢
    by_cases hnew : ∃ generation, e = .discovering generation
    · obtain ⟨generation, rfl⟩ := hnew
      exact ⟨history, [], rfl, nofun⟩
    · have hnewest : [e].foldl newest (lastBegun history) = lastBegun history := by
        cases e with
        | discovering generation => exact absurd ⟨generation, rfl⟩ hnew
        | _ => rfl
      rw [hnewest] at hpos ⊢
      obtain ⟨before, since, hhistory, hsince⟩ := ih hpos
      refine ⟨before, since ++ [e], ?_, fun other hmem => ?_⟩
      · exact (congrArg (· ++ [e]) hhistory).trans (List.append_assoc _ _ _)
      · rcases List.mem_append.mp hmem with hmem | hmem
        · exact hsince other hmem
        · exact hnew ⟨other, (List.mem_singleton.mp hmem).symm⟩

theorem appliesLast_of_lawful {history : List (PageEvent S)} (h : History.Lawful Owed history) :
    AppliesLast history := by
  intro past generation later hsplit
  obtain ⟨rfl, hpos⟩ := h past _ later hsplit
  exact exists_lastBegun hpos

/-- **A page shows its latest read**, and loads while a read waits for it. No read is shown that
something has ended, and a read that nothing has ended is shown when it is there. -/
theorem pages_show_latest (w : World S) (h : w.Reachable) :
    (∀ snap entry, w.page snap = some entry → entry.snapshot = latest snap w.history ∧
      (entry.loading = true ↔
        ∃ request ∈ w.reads, request.snap = snap ∧ w.isCancelled request.token = false)) ∧
      (∀ a ∈ w.reads, ∀ b ∈ w.reads, w.isCancelled a.token = false →
        w.isCancelled b.token = false → a.snap = b.snap → a = b) ∧ w.reads.Nodup ∧
      (∀ request ∈ w.reads, w.isCancelled request.token = false → ∀ snapshot,
        (w.inner.completeSnapshot request snapshot).2 ≠ []) ∧
      NoneStale w.history ∧ AppliesLast w.history := by
  have hinv := Inv.reachable h
  refine ⟨fun snap entry hentry => ⟨(hinv.pages snap entry hentry).shows, ?_⟩,
    fun a ha b hb hlivea hliveb => hinv.alone ha hb hlivea hliveb, hinv.nodup, ?_,
    noneStale_of_lawful hinv.lawful, appliesLast_of_lawful hinv.lawful⟩
  · rw [(hinv.pages snap entry hentry).loading]
    constructor
    · intro hsome
      obtain ⟨token, htoken⟩ := Option.isSome_iff_exists.mp hsome
      obtain ⟨hlive, request, hmem, hsnap, rfl⟩ :=
        (hinv.pages snap entry hentry).inflight token htoken
      exact ⟨request, hmem, hsnap, hlive⟩
    · rintro ⟨request, hmem, rfl, hlive⟩
      obtain ⟨-, entry', hentry', htoken, -⟩ := hinv.awaited request hmem hlive
      obtain rfl := Option.some.inj (hentry.symm.trans hentry')
      rw [htoken]
      rfl
  · intro request hmem hlive snapshot
    obtain ⟨entry, -, -, -, hcomplete⟩ := (hinv.awaited request hmem hlive).complete snapshot
    rw [hcomplete]
    exact List.cons_ne_nil _ _

/-- A backend goes and comes back while its page is read, and is read again. -/
def comeBack : World ℕ :=
  let found : World ℕ := (World.beginDiscovery {} 0).discoveryAnswer ⟨1, 0, false⟩
    (.ok (connectionSnapshot twoModels))
  let gone := ((found.beginSnapshot "myna-whisper").beginDiscovery 1).discoveryAnswer ⟨2, 2, false⟩
    (.ok (connectionSnapshot ⟨[]⟩))
  let back := (gone.beginDiscovery 2).discoveryAnswer ⟨3, 3, false⟩
    (.ok (connectionSnapshot twoModels))
  -- the answer of the first read has the number of the second
  ((back.beginSnapshot "myna-whisper").answer ⟨"myna-whisper", 1, 1⟩ 17).answer
    ⟨"myna-whisper", 1, 4⟩ 23

theorem comeBack_reachable : comeBack.Reachable := by
  have h : World.Reachable (World.beginDiscovery ({} : World ℕ) 0) :=
    .tail .refl (.beginDiscovery _ 0)
  have h := h.tail (.discoveryAnswer _ ⟨1, 0, false⟩ (.ok (connectionSnapshot twoModels))
    (by decide +kernel))
  have h := h.tail (.beginSnapshot _ "myna-whisper")
  have h := h.tail (.beginDiscovery _ 1)
  have h := h.tail (.discoveryAnswer _ ⟨2, 2, false⟩ (.ok (connectionSnapshot ⟨[]⟩))
    (by decide +kernel))
  have h := h.tail (.beginDiscovery _ 2)
  have h := h.tail (.discoveryAnswer _ ⟨3, 3, false⟩ (.ok (connectionSnapshot twoModels))
    (by decide +kernel))
  have h := h.tail (.beginSnapshot _ "myna-whisper")
  have h := h.tail (.answer _ ⟨"myna-whisper", 1, 1⟩ 17 (by decide +kernel))
  exact h.tail (.answer _ ⟨"myna-whisper", 1, 4⟩ 23 (by decide +kernel))

theorem comeBack_shows : latest "myna-whisper" comeBack.history = some 23 ∧
    (comeBack.page "myna-whisper").map PageEntry.snapshot = some (some 23) ∧
    NoneStale comeBack.history ∧ AppliesLast comeBack.history :=
  ⟨by decide +kernel, by decide +kernel, (pages_show_latest comeBack comeBack_reachable).2.2.2.2⟩

end Pages

end Config

end Myna

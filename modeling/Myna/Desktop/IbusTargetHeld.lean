import Myna.Desktop.IbusTarget
import Myna.Desktop.LeaseField

/-!
# Myna — the text that a blip holds

A text that comes while it is unsure whether focus comes back is held, and answered as if it had
been written. What is held goes out before anything else is written: a commit, an update of the
preedit and the release each flush it.

* **`Moved`** — what no part of a write touches, and what it adds to the marks;
* **`write_moved`**, **`flushTexts_moved`** — one text, and the texts of a flush;
* **`Flow`** — the texts written, held and answered, between two calls;
* **`held_text_flows`** — over a target's life.
-/

namespace Myna

namespace Desktop

namespace Ibus

open Suspend (Triple Post)

/-! ## What the marks tell -/

/-- The texts that were to be committed. -/
def called (marks : List Mark) : List String :=
  marks.filterMap fun
    | .called text => some text
    | _ => none

/-- The texts for which `commit` answered that they are written. -/
def accepted (marks : List Mark) : List String :=
  marks.filterMap fun
    | .answered text (.ok _) => some text
    | _ => none

/-- What ending the lease found. -/
def endings (marks : List Mark) : List Retired :=
  marks.filterMap fun
    | .retired found => some found
    | _ => none

def Sent.piece (x : Sent) : Option String :=
  match x.signal, x.result with
  | .commitText text, .ok _ => some text
  | _, _ => none

/-- The pieces that were sent. -/
def written (marks : List Mark) : List String :=
  marks.filterMap fun
    | .sent x => x.piece
    | _ => none

/-- No later piece of a split commit fails to be sent. -/
def Whole (marks : List Mark) : Prop := ∀ x, .sent x ∈ marks → x.later = true → x.result = .ok ()

/-- No text that a blip held meets a secure field while the lease is held, and none fails to be
sent. -/
def Kept (id : ℕ) (marks : List Mark) : Prop :=
  (∀ text state, .checked text state true ∈ marks → text ≠ "" → state.holds id = true →
    state.contentType.isSecure = false) ∧
  ∀ x, .sent x ∈ marks → x.signal.isText = true → x.flushing = true → x.result = .ok ()

section Marks

variable {marks more : List Mark} {id : ℕ}

@[simp] theorem called_append : called (marks ++ more) = called marks ++ called more :=
  List.filterMap_append

@[simp] theorem accepted_append : accepted (marks ++ more) = accepted marks ++ accepted more :=
  List.filterMap_append

@[simp] theorem endings_append : endings (marks ++ more) = endings marks ++ endings more :=
  List.filterMap_append

@[simp] theorem written_append : written (marks ++ more) = written marks ++ written more :=
  List.filterMap_append

theorem Whole.left (h : Whole (marks ++ more)) : Whole marks :=
  fun x hx => h x (List.mem_append_left _ hx)

theorem Whole.right (h : Whole (marks ++ more)) : Whole more :=
  fun x hx => h x (List.mem_append_right _ hx)

theorem Kept.left (h : Kept id (marks ++ more)) : Kept id marks :=
  ⟨fun text state hx => h.1 text state (List.mem_append_left _ hx),
    fun x hx => h.2 x (List.mem_append_left _ hx)⟩

theorem Kept.right (h : Kept id (marks ++ more)) : Kept id more :=
  ⟨fun text state hx => h.1 text state (List.mem_append_right _ hx),
    fun x hx => h.2 x (List.mem_append_right _ hx)⟩

end Marks

/-! ## The engine's state goes on -/

/-- Lease ids are not used again, and a lease that is not held is not held again. -/
structure EngineState.Onward (s s' : EngineState) : Prop where
  next : s.nextLease ≤ s'.nextLease
  lost : ∀ id < s.nextLease, s.holds id = false → s'.holds id = false

namespace EngineState

variable {s s' s'' : EngineState}

theorem Onward.rfl : s.Onward s := ⟨Nat.le_refl _, fun _ _ h => h⟩

theorem Onward.trans (h : s.Onward s') (h' : s'.Onward s'') : s.Onward s'' :=
  ⟨h.next.trans h'.next, fun id hid hlost =>
    h'.lost id (Nat.lt_of_lt_of_le hid h.next) (h.lost id hid hlost)⟩

theorem Onward.of_lease (hnext : s'.nextLease = s.nextLease) (hid : s'.lease.id = s.lease.id)
    (hbinding : s.lease.binding = .lost → s'.lease.binding = .lost) : s.Onward s' :=
  ⟨hnext.ge, fun _ _ h => heldBy_settle hid hbinding h⟩

theorem focus_onward (change : FocusChange) : s.Onward (s.focus change) := by
  refine Onward.of_lease (s.focus_eq change).2.1 ?_ (focus_lost change)
  rcases (s.focus_eq change).2.2.2 with ⟨-, hl, -⟩ | ⟨-, hl, -⟩ | ⟨-, hid, -⟩
  · exact (congrArg Lease.id hl).trans (Lease.focus_id ..)
  · exact (congrArg Lease.id hl).trans (Lease.focus_id ..)
  · exact hid

theorem expire_onward (blip : ℕ) (even : Bool) : s.Onward (s.expire blip even) := by
  obtain ⟨-, hnext, -, -, hid, -⟩ := s.expire_now blip even
  refine Onward.of_lease hnext hid fun hlost => ?_
  rcases s.expire_lease blip even with hsame | ⟨hexpired, -⟩
  · rw [hsame]
    exact hlost
  · exact hexpired

theorem activated_onward (id : ℕ) : s.Onward (s.activated id) := by
  refine ⟨?_, fun _ _ h => activated_not_held h⟩
  unfold EngineState.activated
  split <;> exact Nat.le_refl _

theorem mint_onward : s.Onward s.mint.2 := by
  refine ⟨Nat.le_succ _, fun id hid _ => ?_⟩
  -- the new lease has a new id
  have hne : s.nextLease ≠ id := by omega
  simp [holds, EngineState.mint, Lease.heldBy, hne]

theorem wrote_onward (id : ℕ) : s.Onward (s.wrote id) := by
  unfold EngineState.wrote
  split
  · exact Onward.of_lease rfl rfl fun h => h
  · exact Onward.rfl

theorem retire_onward (id : ℕ) : s.Onward (s.retire id).2 := by
  unfold EngineState.retire
  split
  · exact Onward.rfl
  · exact Onward.of_lease rfl rfl fun _ => rfl

theorem taken_onward (id : ℕ) : s.Onward (s.taken id) := by
  unfold EngineState.taken
  dsimp only
  split
  · exact Onward.of_lease rfl rfl fun _ => rfl
  · exact Onward.of_lease rfl rfl fun h => h

theorem reclaim_onward (retired : Retired) : s.Onward (s.reclaim retired).2 := by
  unfold EngineState.reclaim
  split
  · exact Onward.rfl
  · exact Onward.of_lease rfl rfl fun h => h

theorem land_onward (landing : Landing) : s.Onward (s.land landing) := by
  cases landing with
  | focus change => exact focus_onward change
  | contentType value => exact Onward.of_lease rfl rfl fun h => h
  | surrounding c =>
    show s.Onward (s.surrounding c)
    unfold EngineState.surrounding
    split
    · exact Onward.of_lease rfl rfl fun h => h
    · exact Onward.of_lease rfl rfl fun h => h
    · exact Onward.rfl
  | expire blip even => exact expire_onward blip even
  | tick elapsed => exact Onward.of_lease rfl rfl fun h => h
  | activated id => exact activated_onward id
  | activatedCurrent =>
    show s.Onward s.activatedCurrent
    rw [World.activatedCurrent_eq]
    exact activated_onward _
  | mint => exact mint_onward
  | unfocus id =>
    show s.Onward (s.unfocus id)
    unfold EngineState.unfocus
    split
    · rename_i h
      refine Onward.of_lease rfl rfl fun hlost => ?_
      rw [h.2] at hlost
      cases hlost
    · exact Onward.rfl
  | retire id => exact retire_onward id
  | taken id => exact taken_onward id
  | displace current =>
    show s.Onward (s.displace current)
    unfold EngineState.displace
    split
    · split
      · exact Onward.of_lease rfl rfl fun h => h
      · exact Onward.rfl
    · exact Onward.rfl
  | reclaim retired => exact reclaim_onward retired

theorem lands_onward (landings : List Landing) : s.Onward (s.lands landings) := by
  induction landings generalizing s with
  | nil => exact Onward.rfl
  | cons landing landings ih => exact (land_onward landing).trans ih

end EngineState

/-! ## What a write moves -/

/-- From `r₀` on, only signals and looks at the state were added to the marks. -/
structure Moved (r₀ r : Run) (more : List Mark) : Prop where
  lease : r.target.lease = r₀.target.lease
  onward : r₀.state.Onward r.state
  marks : r.marks = r₀.marks ++ more
  called : called more = []
  accepted : accepted more = []
  endings : endings more = []

/-- And what a blip held was let alone. -/
structure Done (r₀ r : Run) (more : List Mark) : Prop extends Moved r₀ r more where
  held : r.target.held = r₀.target.held
  flushing : r.flushing = r₀.flushing

section

variable {r₀ r₁ r₂ : Run} {more more' : List Mark} {id : ℕ}

theorem Moved.trans (h : Moved r₀ r₁ more) (h' : Moved r₁ r₂ more') :
    Moved r₀ r₂ (more ++ more') where
  lease := h'.lease.trans h.lease
  onward := h.onward.trans h'.onward
  marks := by rw [h'.marks, h.marks, List.append_assoc]
  called := by rw [called_append, h.called, h'.called, List.append_nil]
  accepted := by rw [accepted_append, h.accepted, h'.accepted, List.append_nil]
  endings := by rw [endings_append, h.endings, h'.endings, List.append_nil]

theorem Moved.accepted_eq (h : Moved r₀ r₁ more) :
    Ibus.accepted r₁.marks = Ibus.accepted r₀.marks := by
  rw [h.marks, accepted_append, h.accepted, List.append_nil]

theorem Moved.unended (h : Moved r₀ r₁ more) (hnone : Ibus.endings r₀.marks = []) :
    Ibus.endings r₁.marks = [] := by
  rw [h.marks, endings_append, hnone, h.endings, List.append_nil]

theorem Done.trans (h : Done r₀ r₁ more) (h' : Done r₁ r₂ more') : Done r₀ r₂ (more ++ more') :=
  ⟨h.toMoved.trans h'.toMoved, h'.held.trans h.held, h'.flushing.trans h.flushing⟩

theorem Done.rfl : Done r₀ r₀ [] :=
  ⟨⟨Eq.refl _, .rfl, (List.append_nil _).symm, Eq.refl _, Eq.refl _, Eq.refl _⟩,
    Eq.refl _, Eq.refl _⟩

namespace IbusTarget

theorem emit_done (signal : Signal) (later : Bool) (r₀ : Run) :
    Triple (fun r => r = r₀) (emit signal later)
      (Post (fun r => Moved r₀ r []) fun answer r =>
        ∃ x, Done r₀ r [.sent x] ∧ x.signal = signal ∧ x.later = later ∧
          x.flushing = !r₀.flushing.isEmpty ∧ x.result = answer) := by
  rintro r rfl
  unfold emit
  cases hturns : r.turns with
  | nil =>
    simp only [Suspend.bind_apply, Suspend.get, await, hturns]
    exact ⟨rfl, .rfl, (List.append_nil _).symm, rfl, rfl, rfl⟩
  | cons turn turns =>
    simp only [Suspend.bind_apply, Suspend.get, await, hturns, note, Suspend.modify]
    exact ⟨_, ⟨⟨rfl, EngineState.lands_onward _, rfl, rfl, rfl, rfl⟩, rfl, rfl⟩, rfl, rfl, rfl, rfl⟩

theorem modifyTarget_done {f : IbusTarget → IbusTarget} {r : Run}
    (hlease : (f r.target).lease = r.target.lease) (hheld : (f r.target).held = r.target.held) :
    Done r { r with target := f r.target } [] :=
  ⟨⟨hlease, .rfl, (List.append_nil _).symm, rfl, rfl, rfl⟩, hheld, rfl⟩

theorem modifyState_done {f : EngineState → EngineState} {r : Run}
    (honward : r.state.Onward (f r.state)) : Done r { r with state := f r.state } [] :=
  ⟨⟨rfl, honward, (List.append_nil _).symm, rfl, rfl, rfl⟩, rfl, rfl⟩

theorem written_sent {x : Sent} (h : x.signal.isText = false) : written [.sent x] = [] := by
  have hpiece : x.piece = none := by
    unfold Sent.piece
    cases hsignal : x.signal with
    | hidePreeditText => rfl
    | _ => simp [hsignal, Signal.isText] at h
  simp [written, hpiece]

theorem hidePreedit_done (r₀ : Run) :
    Triple (fun r => r = r₀) hidePreedit
      (Post (fun r => ∃ more, Moved r₀ r more ∧ written more = []) fun _ r =>
        ∃ more, Done r₀ r more ∧ written more = []) := by
  unfold hidePreedit
  refine Triple.get_bind ?_
  rintro r rfl
  refine Triple.modify_bind (M := fun s => s = { r with target.preeditActive := false }) ?_ ?_
  · rintro s rfl
    rfl
  have hfirst : Done r { r with target.preeditActive := false } [] :=
    modifyTarget_done (f := fun t => { t with preeditActive := false }) rfl rfl
  split
  · refine Triple.bind (Q := fun _ s => ∃ more, Done r s more ∧ written more = []) ?_
      fun _ => Triple.ret _ fun s hs => hs
    refine (emit_done _ _ _).conseq' (fun s hs => hs) ?_ ?_
    · intro s hs
      exact ⟨_, hfirst.toMoved.trans hs, rfl⟩
    · rintro answer s ⟨x, hs, hsignal, -⟩
      refine ⟨_, hfirst.trans hs, ?_⟩
      rw [written_append, written_sent (by rw [hsignal]; rfl)]
      rfl
  · refine Triple.ret _ ?_
    rintro s rfl
    exact ⟨_, hfirst, rfl⟩

/-- What is answered of a text: it has been written, or none of it has, and then not because a text
of a flush was refused by the field or the connection. -/
structure Answered (id : ℕ) (r₀ r : Run) (text : String) (answer : Except InjectError Unit)
    (more : List Mark) : Prop where
  ok : answer = .ok () → String.join (written more) = text
  error : answer ≠ .ok () → Whole more → written more = []
  flushed : answer ≠ .ok () → r₀.flushing ≠ [] → Kept id more → r.state.holds id = false

/-- What a text that is under way has left behind. -/
def Begun (r₀ r : Run) (text : String) : Prop :=
  ∃ more, Moved r₀ r more ∧ ∃ rest, String.join (written more) ++ rest = text

theorem flushing_isEmpty (h : r₀.flushing ≠ []) : (!r₀.flushing.isEmpty) = true := by
  simpa using h

/-- The loop over the pieces, by induction on them: the first that fails ends it, and that is the
first of all, or a later piece has failed. -/
theorem emitPieces_done (id : ℕ) (pieces : List String) (later : Bool) (r₀ : Run) :
    Triple (fun r => r = r₀) (emitPieces pieces later)
      (Post (fun r => Begun r₀ r (String.join pieces)) fun answer r => ∃ more,
        Done r₀ r more ∧ Answered id r₀ r (String.join pieces) answer more ∧
          (answer ≠ .ok () → Whole more → later = false)) := by
  induction pieces generalizing later r₀ with
  | nil =>
    refine Triple.ret _ ?_
    rintro r rfl
    exact ⟨[], .rfl, ⟨fun _ => rfl, fun h => absurd rfl h, fun h => absurd rfl h⟩,
      fun h => absurd rfl h⟩
  | cons piece pieces ih =>
    refine Triple.bind ((emit_done _ _ _).conseq' (fun s hs => hs) ?_ fun _ _ h => h) ?_
    · intro r hr
      exact ⟨[], hr, String.join (piece :: pieces), by simp [written]⟩
    rintro (e | _)
    · refine Triple.ret _ ?_
      rintro r ⟨x, hx, hsignal, hlater, hflushing, hresult⟩
      have hnone : written [.sent x] = [] := by
        simp [written, Sent.piece, hsignal, hresult]
      refine ⟨_, hx, ⟨nofun, fun _ _ => hnone, fun _ hflush hkept => ?_⟩, fun _ hwhole => ?_⟩
      · have hsent := hkept.2 x (List.mem_singleton.mpr rfl) (by rw [hsignal]; rfl)
          (hflushing.trans (flushing_isEmpty hflush))
        rw [hresult] at hsent
        cases hsent
      · by_contra hne
        have hsent := hwhole x (List.mem_singleton.mpr rfl) (hlater.trans (by simpa using hne))
        rw [hresult] at hsent
        cases hsent
    · rintro r₁ ⟨x, hx, hsignal, hlater, hflushing, hresult⟩
      have hone : written [.sent x] = [piece] := by
        simp [written, Sent.piece, hsignal, hresult]
      refine ((ih true r₁).conseq' (fun s hs => hs) ?_ ?_) r₁ rfl
      · rintro r ⟨more, hmore, rest, hrest⟩
        refine ⟨_, hx.toMoved.trans hmore, rest, ?_⟩
        rw [written_append, hone, String.join_append, String.append_assoc, hrest]
        simp
      · rintro answer r ⟨more, hmore, hanswered, hfalse⟩
        refine ⟨_, hx.trans hmore, ⟨?_, ?_, ?_⟩, ?_⟩
        · intro hok
          rw [written_append, hone, String.join_append, hanswered.ok hok]
          simp
        · intro herror hwhole
          have hlater := hfalse herror hwhole.right
          cases hlater
        · intro herror hflush hkept
          exact hanswered.flushed herror (by rw [hx.flushing]; exact hflush) hkept.right
        · intro herror hwhole
          have hlater := hfalse herror hwhole.right
          cases hlater

theorem write_done (text : String) (r₀ : Run) (hlease : r₀.target.lease = id) :
    Triple (fun r => r = r₀) (write text)
      (Post (fun r => Begun r₀ r text) fun answer r => ∃ more,
        Done r₀ r more ∧ Answered id r₀ r text answer more) := by
  unfold write
  refine Triple.bind ((hidePreedit_done r₀).conseq' (fun s hs => hs) ?_ fun _ _ h => h) fun _ => ?_
  · rintro r ⟨more, hmore, hnone⟩
    exact ⟨more, hmore, text, by simp [hnone]⟩
  refine Triple.get_bind ?_
  rintro r ⟨more, hmore, hnone⟩
  have hid : r.target.lease = id := hmore.lease.trans hlease
  -- the look at the state
  let look : Mark := .checked text r.state !r.flushing.isEmpty
  let r₁ : Run := { r with marks := r.marks ++ [look] }
  have hlook : Done r₀ r₁ (more ++ [look]) := by
    refine hmore.trans ⟨⟨rfl, .rfl, rfl, rfl, rfl, rfl⟩, rfl, rfl⟩
  have hwritten : written (more ++ [look]) = [] := by
    rw [written_append, hnone]
    rfl
  refine Triple.modify_bind (M := fun s => s = r₁) ?_ ?_
  · rintro s rfl
    rfl
  split
  · rename_i hlost
    refine Triple.ret _ ?_
    rintro s rfl
    refine ⟨_, hlook, fun hok => (by cases hok), fun _ _ => hwritten, fun _ _ _ => ?_⟩
    rw [hid] at hlost
    simpa using hlost
  rename_i hholds
  split
  · rename_i hempty
    refine Triple.ret _ ?_
    rintro s rfl
    obtain rfl : text = "" := by simpa using hempty
    exact ⟨_, hlook, fun _ => by rw [hwritten]; rfl, fun h => absurd rfl h, fun h => absurd rfl h⟩
  rename_i hnonempty
  split
  · rename_i hsecure
    refine Triple.ret _ ?_
    rintro s rfl
    refine ⟨_, hlook, fun hok => (by cases hok), fun _ _ => hwritten, fun _ hflush hkept => ?_⟩
    -- a text of a flush has met a secure field
    have hflushing : r.flushing ≠ [] := by rwa [hmore.flushing]
    have hplain := hkept.1 text r.state
      (by simp [look, flushing_isEmpty hflushing]) (by simpa using hnonempty)
      (by rw [hid] at hholds; simpa using hholds)
    rw [hplain] at hsecure
    cases hsecure
  · refine Triple.modify_bind
      (M := fun s => s = { r₁ with state := r₁.state.wrote r.target.lease }) ?_ ?_
    · rintro s rfl
      rfl
    have hwrote : Done r₀ { r₁ with state := r₁.state.wrote r.target.lease }
        ((more ++ [look]) ++ []) :=
      hlook.trans (modifyState_done (EngineState.wrote_onward _))
    rw [List.append_nil] at hwrote
    suffices hemit : ∀ pieces, String.join pieces = text →
        Triple (fun s => s = { r₁ with state := r₁.state.wrote r.target.lease })
          (emitPieces pieces false) (Post (fun s => Begun r₀ s text) fun answer s => ∃ more,
            Done r₀ s more ∧ Answered id r₀ s text answer more) by
      split
      · exact hemit _ (join_commitPieces text _)
      · exact hemit _ (by simp)
    intro pieces hpieces
    refine ((emitPieces_done id _ false _).conseq' (fun s hs => hs) ?_ ?_)
    · rintro s ⟨more', hmore', rest, hrest⟩
      refine ⟨_, hwrote.toMoved.trans hmore', rest, ?_⟩
      rw [written_append, hwritten, List.nil_append]
      exact hrest.trans hpieces
    · rintro answer s ⟨more', hmore', hanswered, -⟩
      refine ⟨_, hwrote.trans hmore', ?_, ?_, ?_⟩
      · intro hok
        rw [written_append, hwritten, List.nil_append]
        exact (hanswered.ok hok).trans hpieces
      · intro herror hwhole
        rw [written_append, hwritten, hanswered.error herror hwhole.right]
        rfl
      · intro herror hflush hkept
        refine hanswered.flushed herror ?_ hkept.right
        rw [hwrote.flushing]
        exact hflush

theorem showPreedit_done (text : String) (r₀ : Run) :
    Triple (fun r => r = r₀) (showPreedit text)
      (Post (fun r => ∃ more, Moved r₀ r more ∧ written more = []) fun _ r =>
        ∃ more, Done r₀ r more ∧ written more = []) := by
  unfold showPreedit
  refine Triple.get_bind ?_
  rintro r rfl
  split
  · exact Triple.ret _ fun s hs => ⟨[], hs ▸ .rfl, rfl⟩
  split
  · exact Triple.ret _ fun s hs => ⟨[], hs ▸ .rfl, rfl⟩
  split
  · exact hidePreedit_done r
  · let r₁ : Run := { r with state := r.state.wrote r.target.lease }
    have hwrote : Done r r₁ [] := modifyState_done (EngineState.wrote_onward _)
    refine Triple.modify_bind (M := fun s => s = r₁) ?_ ?_
    · rintro s rfl
      rfl
    refine Triple.bind ((emit_done _ _ _).conseq' (fun s hs => hs) ?_ fun _ _ h => h) ?_
    · intro s hs
      exact ⟨_, hwrote.toMoved.trans hs, rfl⟩
    have hnone : ∀ x : Sent, x.signal = .updatePreeditText text r.state.preeditHint
        (UInt32.ofNat text.length) true PREEDIT_MODE_CLEAR → written [.sent x] = [] := by
      intro x hsignal
      simp [written, Sent.piece, hsignal]
    rintro (e | _)
    · refine Triple.ret _ ?_
      rintro s ⟨x, hs, hsignal, -⟩
      exact ⟨_, hwrote.trans hs, hnone x hsignal⟩
    · refine Triple.modify ?_
      rintro s ⟨x, hs, hsignal, -⟩
      refine ⟨_, hwrote.trans (hs.trans
        (modifyTarget_done (f := fun t => { t with preeditActive := true }) rfl rfl)), ?_⟩
      rw [List.append_nil]
      exact hnone x hsignal

/-- What comes of the texts of a flush: all are written, or, up to the one that is refused, some. -/
structure Flushed (id : ℕ) (r : Run) (texts : List String) (answer : Except InjectError Unit)
    (more : List Mark) : Prop where
  flushing : r.flushing = []
  ok : answer = .ok () → String.join (written more) = String.join texts
  error : answer ≠ .ok () → Whole more →
    ∃ ts, ts.Sublist texts ∧ String.join (written more) = String.join ts
  lost : answer ≠ .ok () → Kept id more → r.state.holds id = false

/-- The loop over the texts that a blip held, by induction on them. -/
theorem flushTexts_done (texts : List String) (r₀ : Run) (hlease : r₀.target.lease = id)
    (hflushing : r₀.flushing = []) :
    Triple (fun r => r = r₀) (flushTexts texts)
      (Post (fun r => Begun r₀ r (String.join texts)) fun answer r => ∃ more,
        Done r₀ r more ∧ Flushed id r texts answer more) := by
  induction texts generalizing r₀ with
  | nil =>
    refine Triple.ret _ ?_
    rintro r rfl
    exact ⟨[], .rfl, hflushing, fun _ => rfl, fun h => absurd rfl h, fun h => absurd rfl h⟩
  | cons text texts ih =>
    let r₁ : Run := { r₀ with flushing := text :: texts }
    have hstart : Moved r₀ r₁ [] := ⟨rfl, .rfl, (List.append_nil _).symm, rfl, rfl, rfl⟩
    refine Triple.modify_bind (M := fun s => s = r₁) ?_ ?_
    · rintro s rfl
      rfl
    refine Triple.bind ((write_done text r₁ hlease).conseq' (fun s hs => hs) ?_ fun _ _ h => h) ?_
    · rintro r ⟨more, hmore, rest, hrest⟩
      refine ⟨_, hstart.trans hmore, rest ++ String.join texts, ?_⟩
      rw [List.nil_append, ← String.append_assoc, hrest]
      simp
    intro answer
    refine Triple.modify_bind (M := fun r => ∃ more, Done r₀ r more ∧
      Answered id r₁ r text answer more) ?_ ?_
    · rintro r ⟨more, hmore, hanswered⟩
      have hmoved : Moved r₀ r more := by simpa using hstart.trans hmore.toMoved
      exact ⟨more, ⟨⟨hmoved.lease, hmoved.onward, hmoved.marks, hmoved.called, hmoved.accepted,
        hmoved.endings⟩,
        hmore.held, hflushing.symm⟩, hanswered.ok, hanswered.error, hanswered.flushed⟩
    cases answer with
    | error err =>
      refine Triple.ret _ ?_
      rintro r ⟨more, hmore, hanswered⟩
      refine ⟨more, hmore, hmore.flushing.trans hflushing, nofun, ?_, ?_⟩
      · intro herror hwhole
        refine ⟨[], List.nil_sublist _, ?_⟩
        rw [hanswered.error herror hwhole]
      · intro herror hkept
        exact hanswered.flushed herror (List.cons_ne_nil _ _) hkept
    | ok _ =>
      rintro r ⟨more, hmore, hanswered⟩
      have hwritten := hanswered.ok rfl
      refine ((ih r (hmore.lease.trans hlease) (hmore.flushing.trans hflushing)).conseq'
        (fun s hs => hs) ?_ ?_) r rfl
      · rintro s ⟨more', hmore', rest, hrest⟩
        refine ⟨_, hmore.toMoved.trans hmore', rest, ?_⟩
        rw [written_append, String.join_append, hwritten, String.append_assoc, hrest]
        simp
      · rintro answer s ⟨more', hmore', hflushed⟩
        refine ⟨_, hmore.trans hmore', hflushed.flushing, ?_, ?_, ?_⟩
        · intro hok
          rw [written_append, String.join_append, hwritten, hflushed.ok hok]
          simp
        · intro herror hwhole
          obtain ⟨ts, hts, hjoin⟩ := hflushed.error herror hwhole.right
          refine ⟨text :: ts, hts.cons_cons _, ?_⟩
          rw [written_append, String.join_append, hwritten, hjoin]
          simp
        · intro herror hkept
          exact hflushed.lost herror hkept.right

theorem flush_done (r₀ : Run) (hlease : r₀.target.lease = id) (hflushing : r₀.flushing = []) :
    Triple (fun r => r = r₀) flush
      (Post (fun r => Begun r₀ r (String.join r₀.target.held)) fun answer r => ∃ more,
        Moved r₀ r more ∧ r.target.held = [] ∧ Flushed id r r₀.target.held answer more) := by
  unfold flush
  refine Triple.get_bind ?_
  rintro r rfl
  let r₁ : Run := { r with target.held := [] }
  have hstart : Moved r r₁ [] := ⟨rfl, .rfl, (List.append_nil _).symm, rfl, rfl, rfl⟩
  refine Triple.modify_bind (M := fun s => s = r₁) ?_ ?_
  · rintro s rfl
    rfl
  refine Triple.bind ((flushTexts_done r.target.held r₁ hlease hflushing).conseq'
    (fun s hs => hs) ?_ fun _ _ h => h) ?_
  · rintro s ⟨more, hmore, hrest⟩
    exact ⟨_, hstart.trans hmore, hrest⟩
  rintro (err | _)
  · refine Triple.ret _ ?_
    rintro s ⟨more, hmore, hflushed⟩
    exact ⟨more, hstart.trans hmore.toMoved, hmore.held, hflushed⟩
  · refine Triple.get_bind ?_
    rintro s ⟨more, hmore, hflushed⟩
    have hjoin := hflushed.ok rfl
    let s₁ : Run := { s with target.heldPreedit := none }
    have hpreedit : Done r₁ s₁ more := by
      simpa using hmore.trans
        (modifyTarget_done (f := fun t => { t with heldPreedit := none }) rfl rfl)
    refine Triple.modify_bind (M := fun u => u = s₁) ?_ ?_
    · rintro u rfl
      rfl
    have hend : ∀ (u : Run) (more' : List Mark), Done s₁ u more' → written more' = [] →
        Moved r u (more ++ more') ∧ u.target.held = [] ∧
          Flushed id u r.target.held (.ok ()) (more ++ more') := by
      intro u more' hmore' hnone
      have hdone := hpreedit.trans hmore'
      refine ⟨hstart.trans hdone.toMoved, hdone.held, hdone.flushing.trans hflushing, ?_,
        fun h => absurd rfl h, fun h => absurd rfl h⟩
      intro _
      rw [written_append, hnone, List.append_nil, hjoin]
    split
    · refine Triple.bind ((showPreedit_done _ s₁).conseq' (fun u hu => hu) ?_ fun _ _ h => h) ?_
      · rintro u ⟨more', hmore', hnone⟩
        refine ⟨_, hstart.trans (hpreedit.toMoved.trans hmore'), "", ?_⟩
        rw [List.nil_append, written_append, hnone, List.append_nil, hjoin]
        simp
      · rintro _
        refine Triple.ret _ ?_
        rintro u ⟨more', hmore', hnone⟩
        exact ⟨_, hend u more' hmore' hnone⟩
    · refine Triple.ret _ ?_
      rintro u rfl
      exact ⟨_, hend s₁ [] .rfl rfl⟩

end IbusTarget

end

/-! ## Between the writes -/

open IbusTarget (Begun Answered Flushed)

/-- Of the texts that were to be committed, some are written, `owed` and then `fresh` come after
them, and, while the lease is held, those written and owed are the accepted ones and then `due`. -/
structure Flow (id : ℕ) (owed fresh due : List String) (r : Run) : Prop where
  lease : r.target.lease = id
  next : id < r.state.nextLease
  flushing : r.flushing = []
  unended : endings r.marks = []
  order : Whole r.marks → ∃ ts, String.join (written r.marks) = String.join ts ∧
    (ts ++ (owed ++ fresh)).Sublist (called r.marks) ∧
    (Kept id r.marks → r.state.holds id = true → ts ++ owed = accepted r.marks ++ due)

/-- A run that waits, perhaps with a text of which some pieces are sent. -/
def Underway (r : Run) : Prop :=
  endings r.marks = [] ∧ (Whole r.marks → ∃ ts rest, ts.Sublist (called r.marks) ∧
    String.join (written r.marks) ++ rest = String.join ts)

section

variable {id : ℕ} {owed fresh due : List String} {r r' : Run} {more : List Mark}

theorem Flow.underway {pre : List String} (h : Flow id owed fresh due r)
    (hbegun : Begun r r' (String.join pre)) (hpre : pre.Sublist (owed ++ fresh)) :
    Underway r' := by
  obtain ⟨more, hmore, rest, hrest⟩ := hbegun
  refine ⟨hmore.unended h.unended, fun hwhole => ?_⟩
  rw [hmore.marks] at hwhole
  obtain ⟨ts, hjoin, hsub, -⟩ := h.order hwhole.left
  refine ⟨ts ++ pre, rest, ?_, ?_⟩
  · rw [hmore.marks, called_append, hmore.called, List.append_nil]
    exact ((List.Sublist.refl ts).append hpre).trans hsub
  · rw [hmore.marks, written_append, String.join_append, String.append_assoc, hrest, hjoin,
      String.join_append]

/-- Nothing is written meanwhile. -/
theorem Flow.still {m : List Mark} (h : Flow id owed fresh due r) (hmore : Moved r r' m)
    (hnone : written m = []) : Underway r' :=
  h.underway ⟨m, hmore, "", by rw [hnone]; rfl⟩ (List.nil_sublist _)

theorem holds_before (h : Flow id owed fresh due r) (hmore : Moved r r' more)
    (hheld : r'.state.holds id = true) : r.state.holds id = true := by
  by_contra hlost
  have hgone := hmore.onward.lost id h.next (by simpa using hlost)
  rw [hgone] at hheld
  cases hheld

theorem Flow.moved {m : List Mark} (h : Flow id owed fresh due r) (hmore : Moved r r' m)
    (hnone : written m = []) (hflushing : r'.flushing = []) :
    Flow id owed fresh due r' where
  lease := hmore.lease.trans h.lease
  next := Nat.lt_of_lt_of_le h.next hmore.onward.next
  flushing := hflushing
  unended := hmore.unended h.unended
  order hwhole := by
    rw [hmore.marks] at hwhole
    obtain ⟨ts, hjoin, hsub, hall⟩ := h.order hwhole.left
    refine ⟨ts, ?_, ?_, fun hkept hheld => ?_⟩
    · rw [hmore.marks, written_append, hnone, List.append_nil, hjoin]
    · rw [hmore.marks, called_append, hmore.called, List.append_nil]
      exact hsub
    · rw [hmore.marks] at hkept
      rw [hmore.accepted_eq]
      exact hall hkept.left (holds_before h hmore hheld)

/-- Once the lease is gone, what is owed or fresh may be given up. -/
theorem Flow.lost (h : Flow id owed fresh due r) {owed' fresh' : List String}
    (hsub : (owed' ++ fresh').Sublist (owed ++ fresh)) (due' : List String)
    (hlost : Kept id r.marks → r.state.holds id = false) :
    Flow id owed' fresh' due' r where
  lease := h.lease
  next := h.next
  flushing := h.flushing
  unended := h.unended
  order hwhole := by
    obtain ⟨ts, hjoin, hcalled, -⟩ := h.order hwhole
    refine ⟨ts, hjoin, ((List.Sublist.refl ts).append hsub).trans hcalled, fun hkept hheld => ?_⟩
    rw [hlost hkept] at hheld
    cases hheld

/-- A fresh text that is given up. -/
theorem Flow.drop (h : Flow id owed fresh due r) : Flow id owed [] due r where
  lease := h.lease
  next := h.next
  flushing := h.flushing
  unended := h.unended
  order hwhole := by
    obtain ⟨ts, hjoin, hcalled, hall⟩ := h.order hwhole
    refine ⟨ts, hjoin, List.Sublist.trans ?_ hcalled, hall⟩
    exact (List.Sublist.refl ts).append ((List.Sublist.refl owed).append (List.nil_sublist _))

/-- A fresh text that is held. -/
theorem Flow.hold (h : Flow id owed fresh due r) :
    Flow id (owed ++ fresh) [] (due ++ fresh) r where
  lease := h.lease
  next := h.next
  flushing := h.flushing
  unended := h.unended
  order hwhole := by
    obtain ⟨ts, hjoin, hcalled, hall⟩ := h.order hwhole
    refine ⟨ts, hjoin, by simpa using hcalled, fun hkept hheld => ?_⟩
    rw [← List.append_assoc, hall hkept hheld, List.append_assoc]

/-- What is owed has been flushed, or the lease is gone. -/
theorem Flow.flushed (h : Flow id owed fresh due r) {answer : Except InjectError Unit}
    (hmore : Moved r r' more) (hflushed : Flushed id r' owed answer more) :
    Flow id [] fresh due r' where
  lease := hmore.lease.trans h.lease
  next := Nat.lt_of_lt_of_le h.next hmore.onward.next
  flushing := hflushed.flushing
  unended := hmore.unended h.unended
  order hwhole := by
    rw [hmore.marks] at hwhole
    obtain ⟨ts, hjoin, hsub, hall⟩ := h.order hwhole.left
    have hwritten : String.join (written r'.marks)
      = String.join ts ++ String.join (written more) := by
      rw [hmore.marks, written_append, String.join_append, hjoin]
    have hcalled : called r'.marks = called r.marks := by
      rw [hmore.marks, called_append, hmore.called, List.append_nil]
    have hkept : Kept id r'.marks → Kept id r.marks ∧ Kept id more := by
      rw [hmore.marks]
      exact fun hk => ⟨hk.left, hk.right⟩
    rw [hwritten, hcalled]
    by_cases hok : answer = .ok ()
    · refine ⟨ts ++ owed, ?_, by simpa using hsub, fun hk hheld => ?_⟩
      · rw [hflushed.ok hok, String.join_append]
      · rw [List.append_nil, hmore.accepted_eq]
        exact hall (hkept hk).1 (holds_before h hmore hheld)
    · obtain ⟨pre, hpre, hjoin'⟩ := hflushed.error hok hwhole.right
      refine ⟨ts ++ pre, ?_, ?_, fun hk hheld => ?_⟩
      · rw [hjoin', String.join_append]
      · refine List.Sublist.trans ?_ hsub
        rw [List.append_assoc]
        exact (List.Sublist.refl ts).append (hpre.append (List.Sublist.refl fresh))
      · rw [hflushed.lost hok (hkept hk).2] at hheld
        cases hheld

/-- The texts that an answer says are written. -/
def accepts (text : String) : Except InjectError Unit → List String
  | .ok _ => [text]
  | .error _ => []

theorem Flow.wrote {text : String} {answer : Except InjectError Unit}
    (h : Flow id [] [text] due r) (hmore : Done r r' more)
    (hanswered : Answered id r r' text answer more) :
    Flow id [] [] (due ++ accepts text answer) r' where
  lease := hmore.lease.trans h.lease
  next := Nat.lt_of_lt_of_le h.next hmore.onward.next
  flushing := hmore.flushing.trans h.flushing
  unended := hmore.toMoved.unended h.unended
  order hwhole := by
    rw [hmore.marks] at hwhole
    obtain ⟨ts, hjoin, hsub, hall⟩ := h.order hwhole.left
    have hwritten : String.join (written r'.marks)
      = String.join ts ++ String.join (written more) := by
      rw [hmore.marks, written_append, String.join_append, hjoin]
    have hcalled : called r'.marks = called r.marks := by
      rw [hmore.marks, called_append, hmore.called, List.append_nil]
    have hkept : Kept id r'.marks → Kept id r.marks ∧ Kept id more := by
      rw [hmore.marks]
      exact fun hk => ⟨hk.left, hk.right⟩
    rw [hwritten, hcalled]
    cases answer with
    | ok _ =>
      refine ⟨ts ++ [text], ?_, by simpa using hsub, fun hk hheld => ?_⟩
      · rw [hanswered.ok rfl, String.join_append]
        simp
      · have hbefore := hall (hkept hk).1 (holds_before h hmore.toMoved hheld)
        rw [List.append_nil, hmore.accepted_eq, ← List.append_assoc, ← hbefore, List.append_nil]
        rfl
    | error err =>
      have hnone := hanswered.error nofun hwhole.right
      refine ⟨ts, ?_, ?_, fun hk hheld => ?_⟩
      · rw [hnone]
        simp
      · have hts : ts.Sublist (called r.marks) := (List.sublist_append_left ts _).trans hsub
        simpa using hts
      · have hbefore := hall (hkept hk).1 (holds_before h hmore.toMoved hheld)
        rw [hbefore, hmore.accepted_eq]
        simp [accepts]

end

variable {id : ℕ} {fresh due : List String}

/-- Between two calls, and in a call before anything is written. -/
def Ready (id : ℕ) (fresh due : List String) (r : Run) : Prop :=
  Flow id r.target.held fresh due r

theorem holds_taken (s : EngineState) : (s.taken id).holds id = false := by
  unfold EngineState.taken EngineState.holds
  dsimp only
  split
  · simp [Lease.heldBy]
  case isFalse h => exact Bool.eq_false_iff.mpr h

theorem waitFor_onward {α : Type} (ready : EngineState → Option α) (state : EngineState)
    (turns : List Turn) : state.Onward (waitFor ready state turns).2.1 := by
  induction turns generalizing state with
  | nil => exact .rfl
  | cons turn turns ih =>
    unfold waitFor
    split
    · exact .rfl
    · exact (EngineState.lands_onward _).trans (ih _)

namespace IbusTarget

theorem await_flow : Triple (Ready id fresh due) await
    (Post Underway fun _ => Ready id fresh due) := by
  intro r hr
  unfold await
  cases r.turns with
  | nil =>
    exact hr.still (m := []) ⟨rfl, .rfl, (List.append_nil _).symm, rfl, rfl, rfl⟩ rfl
  | cons turn turns =>
    exact hr.moved (m := [])
      ⟨rfl, EngineState.lands_onward _, (List.append_nil _).symm, rfl, rfl, rfl⟩
      rfl hr.flushing

theorem clear_flow : Triple (fun r => Ready id fresh due r ∧ r.state.holds id = false) clear
    (Post Underway fun _ r => Ready id fresh due r ∧ r.state.holds id = false) := by
  unfold clear
  refine Triple.get_bind ?_
  rintro r ⟨hr, hlost⟩
  let r₁ : Run := { r with marks := r.marks ++ [.cleared r.target.held] }
  have hcleared : Moved r r₁ [.cleared r.target.held] := ⟨rfl, .rfl, rfl, rfl, rfl, rfl⟩
  have hr₁ : Flow id r.target.held fresh due r₁ := hr.moved hcleared rfl hr.flushing
  refine Triple.modify_bind (M := fun s => s = r₁) ?_ (Triple.modify ?_)
  · rintro s rfl
    rfl
  · rintro s rfl
    have hgone : Flow id [] fresh due r₁ :=
      hr₁.lost (List.sublist_append_right _ _) due fun _ => hlost
    exact ⟨⟨hgone.lease, hgone.next, hgone.flushing, hgone.unended, hgone.order⟩, hlost⟩

theorem stateStanding_flow (sure : Bool) : Triple (Ready id fresh due) (stateStanding sure)
    (Post Underway fun standing r => Ready id fresh due r ∧
      (standing = .lost → r.state.holds id = false) ∧ (sure = true → standing ≠ .unsure)) := by
  intro r hr
  have honward := waitFor_onward (fun s => s.settled r.target.lease sure) r.state r.turns
  unfold stateStanding
  rcases hwait : waitFor (fun s => s.settled r.target.lease sure) r.state r.turns with
    ⟨_ | standing, state, turns⟩ <;> rw [hwait] at honward
  · exact hr.still (m := []) ⟨rfl, honward, (List.append_nil _).symm, rfl, rfl, rfl⟩ rfl
  · have hsettled := waitFor_ready hwait
    refine ⟨hr.moved (m := [])
      ⟨rfl, honward, (List.append_nil _).symm, rfl, rfl, rfl⟩ rfl hr.flushing,
      ?_, ?_⟩
    · rintro rfl
      have hstanding := EngineState.standing_of_settled hsettled
      rw [hr.lease] at hstanding
      exact EngineState.standing_lost hstanding
    · rintro rfl rfl
      -- `settled` is `none` while the standing is unsure
      unfold EngineState.settled at hsettled
      split at hsettled
      · cases hsettled
      · contradiction

theorem taken_flow : Triple (Ready id fresh due) taken
    (Post Underway fun answer r => Ready id fresh due r ∧
      (answer = .ok true → r.state.holds id = false)) := by
  unfold taken
  refine Triple.bind await_flow fun turn => ?_
  split
  · exact Triple.ret _ fun s hs => ⟨hs, nofun⟩
  · split
    · refine Triple.get_bind ?_
      intro r hr
      let r₁ : Run := { r with state := r.state.taken r.target.lease }
      have hr₁ : Ready id fresh due r₁ :=
        hr.moved (m := [])
          ⟨rfl, EngineState.taken_onward _, (List.append_nil _).symm, rfl, rfl, rfl⟩ rfl hr.flushing
      have hlost : r₁.state.holds id = false := by
        show (r.state.taken r.target.lease).holds id = false
        rw [hr.lease]
        exact holds_taken r.state
      refine Triple.modify_bind (M := fun s => s = r₁) ?_ ?_
      · rintro s rfl
        rfl
      · have hcleared : Triple (fun r => Ready id fresh due r ∧ r.state.holds id = false) clear
            (Post Underway fun _ r => Ready id fresh due r ∧ r.state.holds id = false) := clear_flow
        refine Triple.bind (hcleared.conseq ?_ fun _ _ h => h) fun _ => Triple.ret _ ?_
        · rintro s rfl
          exact ⟨hr₁, hlost⟩
        · rintro s ⟨hs, hgone⟩
          exact ⟨hs, fun _ => hgone⟩
    · exact Triple.ret _ fun s hs => ⟨hs, nofun⟩
  · exact Triple.ret _ fun s hs => ⟨hs, nofun⟩

/-- With `held` the text of a commit, it is held after what was; a preedit is not. -/
theorem standing_flow (held : String) (preedit : Bool) :
    Triple (Ready id (if preedit then [] else [held]) due) (standing held preedit)
      (Post Underway fun standing r =>
        match standing with
        | .held => Ready id (if preedit then [] else [held]) due r
        | .unsure => Ready id [] (due ++ if preedit then [] else [held]) r
        | .lost => Ready id [] due r) := by
  unfold standing
  refine Triple.bind (stateStanding_flow false) ?_
  rintro (_ | _ | _)
  · exact Triple.ret _ fun s hs => hs.1
  · refine Triple.modify_bind (M :=
      Ready id [] (due ++ if preedit then [] else [held])) ?_ (Triple.ret _ fun s hs => hs)
    rintro s ⟨hs, -⟩
    have hheld := Flow.hold hs
    cases preedit with
    | true => exact ⟨hheld.lease, hheld.next, hheld.flushing,
      hheld.unended, by simpa using hheld.order⟩
    | false => exact ⟨hheld.lease, hheld.next, hheld.flushing, hheld.unended, hheld.order⟩
  · refine Triple.bind (clear_flow.conseq (fun s hs => ⟨hs.1, hs.2.1 rfl⟩) fun _ _ h => h) ?_
    exact fun _ => Triple.ret _ fun s hs => Flow.drop hs.1

/-- A flush from between two calls, as what is owed. -/
theorem flush_flow : Triple (Ready id fresh due) flush
    (Post Underway fun _ r => r.target.held = [] ∧ Flow id [] fresh due r) := by
  intro r hr
  refine ((flush_done r hr.lease hr.flushing).conseq' (fun s hs => hs) ?_ ?_) r rfl
  · intro s hs
    exact hr.underway hs (List.sublist_append_left _ _)
  · rintro answer s ⟨more, hmore, hheld, hflushed⟩
    exact ⟨hheld, hr.flushed hmore hflushed⟩

theorem write_flow (text : String) :
    Triple (fun r => r.target.held = [] ∧ Flow id [] [text] due r) (write text)
      (Post Underway fun answer r => Ready id [] (due ++ accepts text answer) r) := by
  rintro r ⟨hheld, hr⟩
  refine ((write_done text r hr.lease).conseq' (fun s hs => hs) ?_ ?_) r rfl
  · rintro s ⟨more, hmore, rest, hrest⟩
    exact hr.underway ⟨more, hmore, rest, by simpa using hrest⟩ (List.Sublist.refl [text])
  · rintro answer s ⟨more, hmore, hanswered⟩
    have hwrote := hr.wrote hmore hanswered
    unfold Ready
    rw [hmore.held, hheld]
    exact hwrote

theorem commitAsked_flow (text : String) : Triple (Ready id [text] due) (commitAsked text)
    (Post Underway fun answer r => Ready id [] (due ++ accepts text answer) r) := by
  have hrefused : ∀ (r : Run) (fresh : List String) (err : InjectError),
      Ready id fresh due r → Ready id [] (due ++ accepts text (.error err)) r := by
    intro r fresh err hr
    simpa [accepts, Ready] using Flow.drop hr
  unfold commitAsked
  refine Triple.bind taken_flow ?_
  rintro (err | _ | _)
  · exact Triple.ret _ fun s hs => hrefused s _ err hs.1
  · refine Triple.bind ((standing_flow text false).conseq (fun s hs => hs.1) fun _ _ h => h) ?_
    rintro (_ | _ | _)
    · refine Triple.bind flush_flow ?_
      rintro (err | _)
      · refine Triple.ret _ fun s hs => ?_
        refine hrefused s [text] err ?_
        unfold Ready
        rw [hs.1]
        exact hs.2
      · exact write_flow text
    · exact Triple.ret _ fun s hs => hs
    · exact Triple.ret _ fun s hs => hrefused s [] _ hs
  · exact Triple.ret _ fun s hs => hrefused s _ _ hs.1

end IbusTarget

/-! ## Whole lives -/

/-- Between two calls: what was answered as written is written or held. -/
def Between (id : ℕ) (r : Run) : Prop := Ready id [] [] r

namespace IbusTarget

/-- A commit begins. -/
theorem called_ready {r : Run} (h : Between id r) (text : String) :
    Ready id [text] [] { r with marks := r.marks ++ [.called text] } where
  lease := h.lease
  next := h.next
  flushing := h.flushing
  unended := (endings_append).trans (by rw [h.unended]; rfl)
  order hwhole := by
    obtain ⟨ts, hjoin, hsub, hall⟩ := h.order hwhole.left
    have hwritten : written [Mark.called text] = [] := rfl
    have haccepted : accepted [Mark.called text] = [] := rfl
    refine ⟨ts, ?_, ?_, fun hkept hheld => ?_⟩
    · rw [written_append, hwritten, List.append_nil, hjoin]
    · rw [called_append, ← List.append_assoc]
      exact List.Sublist.append (by simpa using hsub) (List.Sublist.refl [text])
    · rw [accepted_append, haccepted, List.append_nil]
      exact hall hkept.left hheld

/-- A commit has answered. -/
theorem answered_between {r : Run} {text : String} {answer : Except InjectError Unit}
    (h : Ready id [] (accepts text answer) r) :
    Between id { r with marks := r.marks ++ [.answered text answer] } where
  lease := h.lease
  next := h.next
  flushing := h.flushing
  unended := (endings_append).trans (by rw [h.unended]; rfl)
  order hwhole := by
    obtain ⟨ts, hjoin, hsub, hall⟩ := h.order hwhole.left
    have hwritten : written [Mark.answered text answer] = [] := rfl
    have hcalled : called [Mark.answered text answer] = [] := rfl
    have haccepted : accepted [Mark.answered text answer] = accepts text answer := by
      cases answer <;> rfl
    refine ⟨ts, ?_, ?_, fun hkept hheld => ?_⟩
    · rw [written_append, hwritten, List.append_nil, hjoin]
    · rw [called_append, hcalled, List.append_nil]
      simpa using hsub
    · rw [accepted_append, haccepted, List.append_nil]
      exact hall hkept.left hheld

theorem commit_flow (text : String) :
    Triple (Between id) (commit text) (Post Underway fun _ => Between id) := by
  unfold commit
  refine Triple.modify_bind (M := Ready id [text] []) (fun r hr => called_ready hr text) ?_
  refine Triple.bind (commitAsked_flow text) fun answer => ?_
  refine Triple.modify_bind (M := Between id) (fun r hr => answered_between hr) ?_
  exact Triple.ret _ fun s hs => hs

theorem showPreedit_flow (text : String) :
    Triple (Between id) (showPreedit text) (Post Underway fun _ => Between id) := by
  intro r hr
  refine ((showPreedit_done text r).conseq' (fun s hs => hs) ?_ ?_) r rfl
  · rintro s ⟨more, hmore, hnone⟩
    exact hr.still hmore hnone
  · rintro _ s ⟨more, hmore, hnone⟩
    have hmoved := hr.moved hmore.toMoved hnone (hmore.flushing.trans hr.flushing)
    unfold Between Ready
    rw [hmore.held]
    exact hmoved

theorem setPreedit_flow (text : String) :
    Triple (Between id) (setPreedit text) (Post Underway fun _ => Between id) := by
  unfold setPreedit
  refine Triple.bind ((standing_flow text true).conseq (fun s hs => hs) fun _ _ h => h) ?_
  rintro (_ | _ | _)
  · have hflushed : Triple (Ready id [] []) flush (Post Underway fun _ => Between id) := by
      refine flush_flow.conseq (fun s hs => hs) ?_
      rintro answer s ⟨hheld, hs⟩
      unfold Between Ready
      rw [hheld]
      exact hs
    refine Triple.bind hflushed ?_
    rintro (err | _)
    · exact Triple.ret _ fun s hs => hs
    · exact showPreedit_flow text
  · exact Triple.ret _ fun s hs => hs
  · exact Triple.ret _ fun s hs => hs

/-- What a release settles: all that was accepted is written, if the lease is held. -/
theorem settle_flow : Triple (Between id) settle (Post Underway fun _ r => Flow id [] [] [] r) := by
  unfold settle
  refine Triple.bind (stateStanding_flow true) ?_
  rintro (_ | _ | _)
  · refine Triple.bind (flush_flow.conseq (fun s hs => hs.1) fun _ _ h => h) fun _ => ?_
    exact Triple.ret _ fun s hs => hs.2
  · exact Triple.ret _ fun s hs => absurd rfl (hs.2.2 rfl)
  · exact Triple.ret _ fun s hs => hs.1.lost (List.nil_sublist _) [] fun _ => hs.2.1 rfl

end IbusTarget

/-- What a release leaves: if it found the lease held, all that was accepted is written. -/
structure Ended (id : ℕ) (found : Retired) (r : Run) : Prop where
  endings : endings r.marks = [found]
  order : Whole r.marks → ∃ ts, String.join (written r.marks) = String.join ts ∧
    ts.Sublist (called r.marks) ∧ (Kept id r.marks → found = .held → ts = accepted r.marks)

theorem Ended.moved {found : Retired} {r r' : Run} {m : List Mark} (h : Ended id found r)
    (hmore : Moved r r' m) (hnone : written m = []) : Ended id found r' where
  endings := by rw [hmore.marks, endings_append, h.endings, hmore.endings, List.append_nil]
  order hwhole := by
    rw [hmore.marks] at hwhole
    obtain ⟨ts, hjoin, hsub, hall⟩ := h.order hwhole.left
    refine ⟨ts, ?_, ?_, fun hkept hfound => ?_⟩
    · rw [hmore.marks, written_append, hnone, List.append_nil, hjoin]
    · rw [hmore.marks, called_append, hmore.called, List.append_nil]
      exact hsub
    · rw [hmore.marks] at hkept
      rw [hmore.accepted_eq]
      exact hall hkept.left hfound

/-- A retirement finds the lease held only if it is. -/
theorem retire_held {s : EngineState} (h : (s.retire id).1 = .held) : s.holds id = true := by
  unfold EngineState.retire at h
  split at h
  · cases h
  · rename_i hid
    split at h
    · rename_i hbinding
      simp only [ne_eq, Decidable.not_not] at hid
      simp [EngineState.holds, Lease.heldBy, hid, hbinding]
    · cases h

/-- Settled, and then retired. -/
theorem Flow.ended {r r' : Run} (h : Flow id [] [] [] r)
    (hmarks : r'.marks = r.marks ++ [.retired (r.state.retire r.target.lease).1]) :
    Ended id (r.state.retire r.target.lease).1 r' where
  endings := by
    rw [hmarks, endings_append, h.unended]
    rfl
  order hwhole := by
    rw [hmarks] at hwhole
    obtain ⟨ts, hjoin, hsub, hall⟩ := h.order hwhole.left
    have hwritten : written [Mark.retired (r.state.retire r.target.lease).1] = [] := rfl
    have hcalled : called [Mark.retired (r.state.retire r.target.lease).1] = [] := rfl
    have haccepted : accepted [Mark.retired (r.state.retire r.target.lease).1] = [] := rfl
    refine ⟨ts, ?_, ?_, fun hkept hfound => ?_⟩
    · rw [hmarks, written_append, hwritten, List.append_nil, hjoin]
    · rw [hmarks, called_append, hcalled, List.append_nil]
      simpa using hsub
    · rw [hmarks] at hkept
      rw [hmarks, accepted_append, haccepted, List.append_nil]
      rw [h.lease] at hfound
      simpa using hall hkept.left (retire_held hfound)

namespace IbusTarget

theorem retire_ended : Triple (Flow id [] [] []) retire
    (Post (fun r => ∃ found, Ended id found r) fun found r => Ended id found r) := by
  unfold retire
  refine Triple.get_bind fun r hr => ?_
  let found := (r.state.retire r.target.lease).1
  let r₁ : Run := { r with
    state := (r.state.retire r.target.lease).2, marks := r.marks ++ [.retired found],
    target.preeditActive := false }
  refine Triple.modify_bind
    (M := fun s => s = { r with state := (r.state.retire r.target.lease).2 }) ?_ ?_
  · rintro s rfl
    rfl
  refine Triple.modify_bind (M := fun s => s = { r with
    state := (r.state.retire r.target.lease).2, marks := r.marks ++ [.retired found] }) ?_ ?_
  · rintro s rfl
    rfl
  refine Triple.modify_bind (M := fun s => s = r₁) ?_ ?_
  · rintro s rfl
    rfl
  have hended : Ended id found r₁ := hr.ended rfl
  split
  · refine Triple.bind ((emit_done _ _ r₁).conseq' (fun s hs => hs) ?_ fun _ _ h => h) ?_
    · intro s hs
      exact ⟨_, hended.moved hs rfl⟩
    · intro _
      refine Triple.ret _ ?_
      rintro s ⟨x, hs, hsignal, -⟩
      exact hended.moved hs.toMoved (written_sent (by rw [hsignal]; rfl))
  · refine Triple.ret _ ?_
    rintro s rfl
    exact hended

theorem release_ended : Triple (Between id) release
    (Post (fun r => Underway r ∨ ∃ found, Ended id found r) fun _ r => ∃ found,
      Ended id found r) := by
  unfold release
  refine Triple.bind (taken_flow.conseq' (fun s hs => hs) (fun _ h => .inl h) fun _ _ h => h) ?_
  intro _
  refine Triple.bind (settle_flow.conseq' (fun s hs => hs.1) (fun _ h => .inl h) fun _ _ h => h) ?_
  intro _
  refine Triple.bind (retire_ended.conseq' (fun s hs => hs) (fun _ h => .inr h) fun _ _ h => h) ?_
  intro found
  refine Triple.get_bind fun r hr => ?_
  let r₁ : Run := { r with state := (r.state.reclaim found).2 }
  have hreclaimed : Ended id found r₁ :=
    hr.moved (m := [])
      ⟨rfl, EngineState.reclaim_onward _, (List.append_nil _).symm, rfl, rfl, rfl⟩ rfl
  refine Triple.modify_bind (M := fun s => s = r₁) ?_ ?_
  · rintro s rfl
    rfl
  split
  · rename_i displaced hdisplaced
    rintro s rfl
    have hturn : ∀ s : Run, Moved r₁ s [] → Ended id found s := fun s hs => hreclaimed.moved hs rfl
    cases hturns : r₁.turns with
    | nil =>
      simp only [Suspend.bind_apply, await, hturns]
      exact .inr ⟨found, hturn _ ⟨rfl, .rfl, (List.append_nil _).symm, rfl, rfl, rfl⟩⟩
    | cons turn turns =>
      simp only [Suspend.bind_apply, await, hturns, note, Suspend.modify]
      have hlanded := hturn { r₁ with
          turns, awaited := true, state := r₁.state.lands turn.landings }
        ⟨rfl, EngineState.lands_onward _, (List.append_nil _).symm, rfl, rfl, rfl⟩
      exact ⟨found, hlanded.moved (m := [.restored displaced]) ⟨rfl, .rfl, rfl, rfl, rfl, rfl⟩ rfl⟩
  · refine Triple.ret _ ?_
    rintro s rfl
    exact ⟨found, hreclaimed⟩

end IbusTarget

theorem Call.run_flow (call : Call) :
    Triple (Between id) call.run (Post Underway fun _ => Between id) := by
  have hstate : ∀ (r : Run) (state : EngineState), Between id r → r.state.Onward state →
      Between id { r with state } := fun r state hr honward =>
    hr.moved (m := []) ⟨rfl, honward, (List.append_nil _).symm, rfl, rfl, rfl⟩ rfl hr.flushing
  cases call with
  | commit text =>
    exact Triple.bind (IbusTarget.commit_flow text) fun _ => Triple.ret _ fun s hs => hs
  | setPreedit text => exact IbusTarget.setPreedit_flow text
  | activated =>
    refine Triple.get_bind fun r hr => Triple.modify ?_
    rintro s rfl
    exact hstate _ _ hr (EngineState.activated_onward _)
  | lands landing =>
    exact Triple.modify fun s hs => hstate _ _ hs (EngineState.land_onward landing)

theorem runCalls_flow (calls : List Call) :
    Triple (Between id) (runCalls calls) (Post Underway fun _ => Between id) := by
  induction calls with
  | nil => exact Triple.ret _ fun s hs => hs
  | cons call calls ih => exact Triple.bind call.run_flow fun _ => ih

/-- What is asked of a target comes to an end, or waits. -/
theorem life_flow (calls : List Call) (released : Bool) : Triple (Between id) (life calls released)
    (Post (fun r => Underway r ∨ ∃ found, Ended id found r) fun _ r =>
      Between id r ∨ ∃ found, Ended id found r) := by
  refine Triple.bind
    ((runCalls_flow calls).conseq' (fun s hs => hs) (fun _ h => .inl h) fun _ _ h => h) ?_
  intro _
  cases released with
  | true => exact IbusTarget.release_ended.conseq (fun s hs => hs) fun _ _ h => .inr h
  | false => exact Triple.ret _ fun s hs => .inl hs

theorem acquired_between (before : EngineState) (landings : List Landing) (turns : List Turn) :
    Between before.mint.1 (acquired before landings turns) := by
  have honward : before.mint.2.Onward (before.mint.2.lands landings) :=
    EngineState.lands_onward landings
  refine ⟨rfl, Nat.lt_of_lt_of_le (Nat.lt_succ_self _) honward.next, rfl, rfl, fun _ => ?_⟩
  exact ⟨[], rfl, List.Sublist.refl _, fun _ _ => rfl⟩

/-- **The text that a blip holds.** As long as no later piece of a split commit fails to be sent,
what is written is some of the texts to be committed, whole and in order, but for one that may be
under way where the run waits. If, besides, no flush meets a secure field or a signal that fails,
and the release finds the lease held, then what is written is all that was accepted. -/
theorem held_text_flows (before : EngineState) (landings : List Landing) (turns : List Turn)
    (calls : List Call) (released : Bool) :
    let run := life calls released (acquired before landings turns)
    let marks := run.2.marks
    (Whole marks →
      ∃ ts, ts.Sublist (called marks) ∧
        (∃ rest, String.join (written marks) ++ rest = String.join ts) ∧
        (run.1.isSome → String.join (written marks) = String.join ts)) ∧
    (Whole marks → Kept before.mint.1 marks → .held ∈ endings marks →
      String.join (written marks) = String.join (accepted marks)) := by
  have hrun := life_flow calls released _ (acquired_between before landings turns)
  intro run marks
  have hended : ∀ found, Ended before.mint.1 found run.2 →
      (Whole marks → ∃ ts, ts.Sublist (called marks) ∧
        String.join (written marks) = String.join ts) ∧
      (Whole marks → Kept before.mint.1 marks → .held ∈ endings marks →
        String.join (written marks) = String.join (accepted marks)) := by
    intro found h
    constructor
    · intro hwhole
      obtain ⟨ts, hjoin, hsub, -⟩ := h.order hwhole
      exact ⟨ts, hsub, hjoin⟩
    · intro hwhole hkept hheld
      obtain ⟨ts, hjoin, -, hall⟩ := h.order hwhole
      have hfound : found = .held := by
        have hmem : .held ∈ [found] := h.endings ▸ hheld
        exact (List.mem_singleton.mp hmem).symm
      rw [hjoin, hall hkept hfound]
  rcases hresult : run.1 with _ | _
  · have hwait : Underway run.2 ∨ ∃ found, Ended before.mint.1 found run.2 := by
      rw [show (life calls released (acquired before landings turns)).1 = none from hresult] at hrun
      exact hrun
    rcases hwait with ⟨hnone, hunder⟩ | ⟨found, hfound⟩
    · refine ⟨fun hwhole => ?_, fun _ _ hheld => ?_⟩
      · obtain ⟨ts, rest, hsub, hrest⟩ := hunder hwhole
        exact ⟨ts, hsub, ⟨rest, hrest⟩, nofun⟩
      · rw [hnone] at hheld
        cases hheld
    · refine ⟨fun hwhole => ?_, (hended found hfound).2⟩
      obtain ⟨ts, hsub, hjoin⟩ := (hended found hfound).1 hwhole
      exact ⟨ts, hsub, ⟨"", by rw [hjoin, String.append_empty]⟩, nofun⟩
  · have hend : Between before.mint.1 run.2 ∨ ∃ found, Ended before.mint.1 found run.2 := by
      rw [show (life calls released (acquired before landings turns)).1 = some () from hresult]
        at hrun
      exact hrun
    rcases hend with hbetween | ⟨found, hfound⟩
    · refine ⟨fun hwhole => ?_, fun _ _ hheld => ?_⟩
      · obtain ⟨ts, hjoin, hsub, -⟩ := hbetween.order hwhole
        refine ⟨ts, (List.sublist_append_left ts _).trans hsub, ⟨"", ?_⟩, fun _ => hjoin⟩
        rw [hjoin, String.append_empty]
      · rw [hbetween.unended] at hheld
        cases hheld
    · refine ⟨fun hwhole => ?_, (hended found hfound).2⟩
      obtain ⟨ts, hsub, hjoin⟩ := (hended found hfound).1 hwhole
      exact ⟨ts, hsub, ⟨"", by rw [hjoin, String.append_empty]⟩, fun _ => hjoin⟩

/-- **A held text that nobody writes.** Committed in a blip, it is answered as written; focus comes
back, the field shows a password for the time of one update of the preedit, which takes the text and
drops it, and the release finds the lease held and nothing to write. -/
theorem held_text_lost :
    ¬ ∀ (before : EngineState) (landings : List Landing) (turns : List Turn) (calls : List Call)
        (released : Bool),
      let marks := (life calls released (acquired before landings turns)).2.marks
      .held ∈ endings marks → String.join (written marks) = String.join (accepted marks) := by
  intro h
  have hall := h {} [.focus (.focusIn (some ⟨"/field", "gtk4"⟩))] [{}, {}]
    [.lands (.focus (.focusOut none)), .commit "hello",
      .lands (.focus (.focusIn (some ⟨"/field", "gtk4"⟩))), .lands .activatedCurrent,
      .lands (.contentType { purpose := PURPOSE_PASSWORD }), .setPreedit "there",
      .lands (.contentType {})] true
  revert hall
  decide +kernel

end Ibus

end Desktop

end Myna

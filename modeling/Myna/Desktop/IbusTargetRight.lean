import Myna.Desktop.IbusTarget

/-!
# Myna — the right to write, at each signal

A target asks where its lease stands before it writes, and then awaits: the preedit is hidden, one
text goes after another, one piece after another. After an await it looks again at the lease and at
the content type before each text, but not at where focus is, and between the pieces of one text it
looks at nothing.

* **`Guarded`** — the signals of a run, each with what has been looked at since the last await;
* **`signals_have_right`** — a run's signals have the right to write exactly when nothing has landed
  at such an await.
-/

namespace Myna

namespace Desktop

namespace Ibus

open Suspend (Triple Post)

/-- The lease is held, focus is not away, and the field is not secure. -/
def EngineState.Right (s : EngineState) (id : ℕ) : Prop :=
  s.holds id = true ∧ s.lease.away = none ∧ s.contentType.isSecure = false

instance (s : EngineState) (id : ℕ) : Decidable (s.Right id) :=
  inferInstanceAs (Decidable (_ ∧ _ ∧ _))

/-- What landed at the awaits since lease `id` was asked about has not taken focus away; and, where
pieces of the same commit went before, has not ended the lease or made the field secure. -/
def Sent.Undisturbed (x : Sent) (id : ℕ) : Prop :=
  (x.awaited = true → x.state.lease.away = none) ∧
    (x.later = true → x.state.holds id = true ∧ x.state.contentType.isSecure = false)

/-- The signals that put text into a field, as they were sent. -/
def textSignals (marks : List Mark) : List Sent :=
  marks.filterMap fun
    | .sent x => if x.signal.isText then some x else none
    | _ => none

theorem mem_textSignals {marks : List Mark} {x : Sent} :
    x ∈ textSignals marks ↔ .sent x ∈ marks ∧ x.signal.isText = true := by
  constructor
  · intro h
    obtain ⟨mark, hmark, hx⟩ := List.mem_filterMap.mp h
    cases mark with
    | sent y =>
      by_cases htext : y.signal.isText = true
      · obtain rfl : y = x := by simpa [htext] using hx
        exact ⟨hmark, htext⟩
      · simp [htext] at hx
    | _ => simp at hx
  · rintro ⟨hmem, htext⟩
    exact List.mem_filterMap.mpr ⟨_, hmem, by simp [htext]⟩

namespace EngineState

variable {s : EngineState} {id : ℕ}

theorem wrote_contentType : (s.wrote id).contentType = s.contentType := by
  unfold wrote
  split <;> rfl

theorem wrote_binding : (s.wrote id).lease.binding = s.lease.binding := by
  unfold wrote
  split <;> rfl

theorem wrote_id : (s.wrote id).lease.id = s.lease.id := by
  unfold wrote
  split <;> rfl

theorem wrote_heldBy (other : ℕ) : (s.wrote id).lease.heldBy other = s.lease.heldBy other := by
  unfold Lease.heldBy
  rw [wrote_binding, wrote_id]

theorem wrote_standing (other : ℕ) :
    (s.wrote id).lease.standing other = s.lease.standing other := by
  unfold Lease.standing
  rw [wrote_heldBy, wrote_binding]

end EngineState

/-! ## What the signals of a run were sent with -/

variable {id : ℕ}

/-- The target is lease `id`'s, and its signals had the right to write exactly when they were
undisturbed. -/
structure Guarded (id : ℕ) (r : Run) : Prop where
  lease : r.target.lease = id
  sent : ∀ x ∈ textSignals r.marks, x.state.Right id ↔ x.Undisturbed id

/-- Between awaits, what the lease was asked stands. -/
structure Told (id : ℕ) (r : Run) : Prop extends Guarded id r where
  standing : r.awaited = false → r.state.lease.standing id = some .held

theorem Guarded.note {r : Run} (h : Guarded id r) {mark : Mark}
    (hmark : ∀ x, mark = .sent x → x.signal.isText = true → (x.state.Right id ↔ x.Undisturbed id)) :
    Guarded id { r with marks := r.marks ++ [mark] } := by
  refine ⟨h.lease, ?_⟩
  intro x hx
  obtain ⟨hmem, htext⟩ := mem_textSignals.mp hx
  rcases List.mem_append.mp hmem with hold | hnew
  · exact h.sent x (mem_textSignals.mpr ⟨hold, htext⟩)
  · exact hmark x (List.mem_singleton.mp hnew).symm htext

theorem Told.note {r : Run} (h : Told id r) {mark : Mark}
    (hmark : ∀ x, mark = .sent x → x.signal.isText = true → (x.state.Right id ↔ x.Undisturbed id)) :
    Told id { r with marks := r.marks ++ [mark] } :=
  ⟨h.toGuarded.note hmark, h.standing⟩

/-- A first signal after a look at the lease and the field. -/
theorem Told.right_iff {r : Run} (h : Told id r) (hholds : r.state.holds id = true)
    (hplain : r.state.contentType.isSecure = false) :
    r.state.Right id ↔ (r.awaited = true → r.state.lease.away = none) := by
  constructor
  · intro hright _
    exact hright.2.1
  · intro haway
    refine ⟨hholds, ?_, hplain⟩
    cases hawaited : r.awaited with
    | true => exact haway hawaited
    | false => exact (EngineState.standing_held (h.standing hawaited)).2

namespace IbusTarget

/-- A signal is sent: with `later`, an await went before; else the lease and the field have just
been looked at. -/
theorem emit_triple {signal : Signal} {later : Bool} {r₀ : Run} (h : Guarded id r₀)
    (hsignal : signal.isText = true → (r₀.state.Right id ↔
      (r₀.awaited = true → r₀.state.lease.away = none) ∧
        (later = true → r₀.state.holds id = true ∧ r₀.state.contentType.isSecure = false))) :
    Triple (fun r => r = r₀) (emit signal later)
      (Post (Guarded id) fun _ r => Told id r ∧ r.awaited = true) := by
  rintro r rfl
  unfold emit
  cases hturns : r.turns with
  | nil =>
    simp only [Suspend.bind_apply, Suspend.get, await, hturns]
    exact ⟨h.lease, h.sent⟩
  | cons turn turns =>
    simp only [Suspend.bind_apply, Suspend.get, await, hturns, note, Suspend.modify]
    have hland : Told id { r with
        turns := turns, awaited := true, state := r.state.lands turn.landings } :=
      ⟨⟨h.lease, h.sent⟩, by simp⟩
    refine ⟨hland.note ?_, rfl⟩
    intro x hx htext
    obtain rfl := Mark.sent.inj hx
    exact hsignal htext

theorem modifyTarget_triple {f : IbusTarget → IbusTarget} {r₀ : Run} (h : Told id r₀)
    (hlease : (f r₀.target).lease = r₀.target.lease) :
    Triple (fun r => r = r₀) (modifyTarget f)
      (Post (Guarded id) fun _ r => r = { r₀ with target := f r₀.target } ∧ Told id r) := by
  rintro r rfl
  exact ⟨rfl, ⟨hlease.trans h.lease, h.sent⟩, h.standing⟩

theorem hidePreedit_triple : Triple (Told id) hidePreedit (Post (Guarded id) fun _ => Told id) := by
  unfold hidePreedit
  refine Triple.get_bind fun r hr => ?_
  refine Triple.bind (modifyTarget_triple hr rfl) fun _ => ?_
  split
  · refine Triple.bind (Q := fun _ => Told id) ?_ fun _ => Triple.ret _ fun s hs => hs
    intro s hs
    refine (emit_triple hs.2.toGuarded ?_).conseq (fun _ h => h) (fun _ _ h => h.1) s rfl
    intro htext
    simp [Signal.isText] at htext
  · exact Triple.ret _ fun s hs => hs.2

/-- The pieces after the first find nothing looked at. -/
theorem emitPieces_later (pieces : List String) :
    Triple (fun r => Told id r ∧ r.awaited = true) (emitPieces pieces true)
      (Post (Guarded id) fun _ => Told id) := by
  induction pieces with
  | nil => exact Triple.ret _ fun s hs => hs.1
  | cons piece pieces ih =>
    refine Triple.bind (Q := fun _ r => Told id r ∧ r.awaited = true) ?_ ?_
    · rintro r ⟨hr, hawaited⟩
      refine emit_triple hr.toGuarded (fun _ => ?_) r rfl
      simp only [EngineState.Right, hawaited, forall_const]
      tauto
    · rintro (e | _)
      · exact Triple.ret _ fun s hs => hs.1
      · exact ih

theorem emitPieces_first (pieces : List String) :
    Triple (fun r => Told id r ∧ r.state.holds id = true ∧ r.state.contentType.isSecure = false)
      (emitPieces pieces false) (Post (Guarded id) fun _ => Told id) := by
  cases pieces with
  | nil => exact Triple.ret _ fun s hs => hs.1
  | cons piece pieces =>
    refine Triple.bind (Q := fun _ r => Told id r ∧ r.awaited = true) ?_ ?_
    · rintro r ⟨hr, hholds, hplain⟩
      refine emit_triple hr.toGuarded (fun _ => ?_) r rfl
      rw [hr.right_iff hholds hplain]
      simp
    · rintro (e | _)
      · exact Triple.ret _ fun s hs => hs.1
      · exact emitPieces_later pieces

/-- A text put in front of the daemon leaves the right to write as it was. -/
theorem wrote_told {r : Run} (h : Told id r) (hholds : r.state.holds id = true)
    (hplain : r.state.contentType.isSecure = false) :
    let r' := { r with state := r.state.wrote r.target.lease }
    Told id r' ∧ r'.state.holds id = true ∧ r'.state.contentType.isSecure = false := by
  refine ⟨⟨⟨h.lease, h.sent⟩, ?_⟩, ?_, ?_⟩
  · intro hawaited
    exact (EngineState.wrote_standing id).trans (h.standing hawaited)
  · exact (EngineState.wrote_heldBy id).trans hholds
  · show (r.state.wrote r.target.lease).contentType.isSecure = false
    rw [EngineState.wrote_contentType]
    exact hplain

theorem write_triple (text : String) :
    Triple (Told id) (write text) (Post (Guarded id) fun _ => Told id) := by
  unfold write
  refine Triple.bind hidePreedit_triple fun _ => ?_
  refine Triple.get_bind fun r hr => ?_
  refine Triple.modify_bind (M := fun s =>
    Told id s ∧ s.state = r.state ∧ s.target = r.target) ?_ ?_
  · rintro s rfl
    exact ⟨hr.note (by simp), rfl, rfl⟩
  split
  · exact Triple.ret _ fun s hs => hs.1
  split
  · exact Triple.ret _ fun s hs => hs.1
  split
  · exact Triple.ret _ fun s hs => hs.1
  case isFalse hholds _ hplain =>
    refine Triple.modify_bind ?_ (emitPieces_first _)
    rintro s ⟨hs, hstate, htarget⟩
    rw [← htarget]
    refine wrote_told hs ?_ ?_
    · rw [hstate, ← hr.lease]
      simpa using hholds
    · rw [hstate]
      simpa using hplain

theorem showPreedit_triple (text : String) :
    Triple (Told id) (showPreedit text) (Post (Guarded id) fun _ => Told id) := by
  unfold showPreedit
  refine Triple.get_bind fun r hr => ?_
  split
  · exact Triple.ret _ fun s hs => hs ▸ hr
  split
  · exact Triple.ret _ fun s hs => hs ▸ hr
  split
  · exact hidePreedit_triple.conseq (fun s hs => hs ▸ hr) fun _ _ h => h
  case isFalse hholds hplain _ =>
    refine Triple.modify_bind (M := fun s => Told id s ∧ s.state.holds id = true ∧
      s.state.contentType.isSecure = false) ?_ ?_
    · rintro s rfl
      refine wrote_told hr ?_ (by simpa using hplain)
      rw [← hr.lease]
      simpa using hholds
    · refine Triple.bind (Q := fun _ => Told id) ?_ ?_
      · rintro s ⟨hs, hsholds, hsplain⟩
        refine (emit_triple hs.toGuarded fun _ => ?_).conseq (fun _ h => h) (fun _ _ h => h.1) s rfl
        rw [hs.right_iff hsholds hsplain]
        simp
      · rintro (e | _)
        · exact Triple.ret _ fun s hs => hs
        · intro s hs
          exact (modifyTarget_triple hs rfl s rfl).2

theorem flushTexts_triple (texts : List String) :
    Triple (Told id) (flushTexts texts) (Post (Guarded id) fun _ => Told id) := by
  induction texts with
  | nil => exact Triple.ret _ fun s hs => hs
  | cons text texts ih =>
    refine Triple.modify_bind (M := Told id) (fun s hs => ⟨⟨hs.lease, hs.sent⟩, hs.standing⟩) ?_
    refine Triple.bind (write_triple text) fun written => ?_
    refine Triple.modify_bind (M := Told id) (fun s hs => ⟨⟨hs.lease, hs.sent⟩, hs.standing⟩) ?_
    cases written with
    | error err => exact Triple.ret _ fun s hs => hs
    | ok _ => exact ih

theorem flush_triple : Triple (Told id) flush (Post (Guarded id) fun _ => Told id) := by
  unfold flush
  refine Triple.get_bind fun r hr => ?_
  refine Triple.modify_bind (M := Told id) ?_ ?_
  · rintro s rfl
    exact ⟨⟨hr.lease, hr.sent⟩, hr.standing⟩
  refine Triple.bind (flushTexts_triple _) ?_
  rintro (err | _)
  · exact Triple.ret _ fun s hs => hs
  · refine Triple.get_bind fun r hr => ?_
    refine Triple.modify_bind (M := Told id) ?_ ?_
    · rintro s rfl
      exact ⟨⟨hr.lease, hr.sent⟩, hr.standing⟩
    cases r.target.heldPreedit with
    | none => exact Triple.ret _ fun s hs => hs
    | some text =>
      exact Triple.bind (showPreedit_triple text) fun _ => Triple.ret _ fun s hs => hs

theorem stateStanding_triple (sure : Bool) :
    Triple (Guarded id) (stateStanding sure)
      (Post (Guarded id) fun standing r => Guarded id r ∧ (standing = .held → Told id r)) := by
  intro r hr
  unfold stateStanding
  rcases hwait : waitFor (fun s => s.settled r.target.lease sure) r.state r.turns with
    ⟨_ | standing, state, turns⟩
  · exact ⟨hr.lease, hr.sent⟩
  · have hguarded : Guarded id { r with state, turns, awaited := false } := ⟨hr.lease, hr.sent⟩
    refine ⟨hguarded, ?_⟩
    rintro rfl
    refine ⟨hguarded, fun _ => ?_⟩
    rw [← hr.lease]
    exact EngineState.standing_of_settled (waitFor_ready hwait)

theorem clear_triple : Triple (Guarded id) clear (Post (Guarded id) fun _ => Guarded id) := by
  unfold clear
  refine Triple.get_bind fun r hr => ?_
  refine Triple.modify_bind (M := Guarded id) ?_ ?_
  · rintro s rfl
    exact hr.note (by simp)
  · exact Triple.modify fun s hs => ⟨hs.lease, hs.sent⟩

theorem await_triple : Triple (Guarded id) await (Post (Guarded id) fun _ => Guarded id) := by
  intro r hr
  unfold await
  cases r.turns with
  | nil => exact ⟨hr.lease, hr.sent⟩
  | cons turn turns => exact ⟨hr.lease, hr.sent⟩

theorem taken_triple : Triple (Guarded id) taken (Post (Guarded id) fun _ => Guarded id) := by
  unfold taken
  refine Triple.bind await_triple fun turn => ?_
  split
  · exact Triple.ret _ fun s hs => hs
  · split
    · refine Triple.get_bind fun r hr => ?_
      refine Triple.modify_bind (M := Guarded id) ?_ ?_
      · rintro s rfl
        exact ⟨hr.lease, hr.sent⟩
      · exact Triple.bind clear_triple fun _ => Triple.ret _ fun s hs => hs
    · exact Triple.ret _ fun s hs => hs
  · exact Triple.ret _ fun s hs => hs

theorem standing_triple (held : String) (preedit : Bool) :
    Triple (Guarded id) (standing held preedit)
      (Post (Guarded id) fun standing r => Guarded id r ∧ (standing = .held → Told id r)) := by
  unfold standing
  refine Triple.bind (stateStanding_triple false) ?_
  rintro (_ | _ | _)
  · exact Triple.ret _ fun s hs => hs
  · refine Triple.modify_bind (M := Guarded id) ?_ (Triple.ret _ fun s hs => ⟨hs, by simp⟩)
    rintro s ⟨hs, -⟩
    refine ⟨?_, hs.sent⟩
    cases preedit <;> exact hs.lease
  · refine Triple.bind (clear_triple.conseq (fun s hs => hs.1) fun _ _ h => h) fun _ => ?_
    exact Triple.ret _ fun s hs => ⟨hs, by simp⟩

theorem commit_triple (text : String) :
    Triple (Guarded id) (commit text) (Post (Guarded id) fun _ => Guarded id) := by
  have hasked : Triple (Guarded id) (commitAsked text) (Post (Guarded id) fun _ => Guarded id) := by
    unfold commitAsked
    refine Triple.bind taken_triple ?_
    rintro (err | _ | _)
    · exact Triple.ret _ fun s hs => hs
    · refine Triple.bind (standing_triple text false) ?_
      rintro (_ | _ | _)
      · refine Triple.bind (flush_triple.conseq (fun s hs => hs.2 rfl) fun _ _ h => h) ?_
        rintro (err | _)
        · exact Triple.ret _ fun s hs => hs.toGuarded
        · exact (write_triple text).conseq (fun _ h => h) fun _ _ h => h.toGuarded
      · exact Triple.ret _ fun s hs => hs.1
      · exact Triple.ret _ fun s hs => hs.1
    · exact Triple.ret _ fun s hs => hs
  unfold commit
  refine Triple.modify_bind (M := Guarded id) (fun s hs => hs.note (by simp)) ?_
  refine Triple.bind hasked fun answer => ?_
  refine Triple.modify_bind (M := Guarded id) (fun s hs => hs.note (by simp)) ?_
  exact Triple.ret _ fun s hs => hs

theorem setPreedit_triple (text : String) :
    Triple (Guarded id) (setPreedit text) (Post (Guarded id) fun _ => Guarded id) := by
  unfold setPreedit
  refine Triple.bind (standing_triple text true) ?_
  rintro (_ | _ | _)
  · refine Triple.bind (flush_triple.conseq (fun s hs => hs.2 rfl) fun _ _ h => h) ?_
    rintro (err | _)
    · exact Triple.ret _ fun s hs => hs.toGuarded
    · exact (showPreedit_triple text).conseq (fun _ h => h) fun _ _ h => h.toGuarded
  · exact Triple.ret _ fun s hs => hs.1
  · exact Triple.ret _ fun s hs => hs.1

theorem settle_triple : Triple (Guarded id) settle (Post (Guarded id) fun _ => Guarded id) := by
  unfold settle
  refine Triple.bind (stateStanding_triple true) ?_
  rintro (_ | _ | _)
  · refine Triple.bind (flush_triple.conseq (fun s hs => hs.2 rfl) fun _ _ h => h) fun _ => ?_
    exact Triple.ret _ fun s hs => hs.toGuarded
  · exact Triple.ret _ fun s hs => hs.1
  · exact Triple.ret _ fun s hs => hs.1

theorem retire_triple : Triple (Guarded id) retire (Post (Guarded id) fun _ => Guarded id) := by
  unfold retire
  refine Triple.get_bind fun r hr => ?_
  refine Triple.modify_bind (M := Guarded id) ?_ ?_
  · rintro s rfl
    exact ⟨hr.lease, hr.sent⟩
  refine Triple.modify_bind (M := Guarded id) (fun s hs => hs.note (by simp)) ?_
  refine Triple.modify_bind (M := Guarded id) (fun s hs => ⟨hs.lease, hs.sent⟩) ?_
  split
  · refine Triple.bind (Q := fun _ => Guarded id) ?_ fun _ => Triple.ret _ fun s hs => hs
    intro s hs
    refine (emit_triple hs ?_).conseq (fun _ h => h) (fun _ _ h => h.1.toGuarded) s rfl
    intro htext
    simp [Signal.isText] at htext
  · exact Triple.ret _ fun s hs => hs

theorem release_triple : Triple (Guarded id) release (Post (Guarded id) fun _ => Guarded id) := by
  unfold release
  refine Triple.bind taken_triple fun _ => ?_
  refine Triple.bind settle_triple fun _ => ?_
  refine Triple.bind retire_triple fun retired => ?_
  refine Triple.get_bind fun r hr => ?_
  refine Triple.modify_bind (M := Guarded id) ?_ ?_
  · rintro s rfl
    exact ⟨hr.lease, hr.sent⟩
  split
  · refine Triple.bind await_triple fun _ => ?_
    exact Triple.modify fun s hs => hs.note (by simp)
  · exact Triple.ret _ fun s hs => hs

end IbusTarget

/-! ## Whole runs -/

theorem Call.run_triple (call : Call) :
    Triple (Guarded id) call.run (Post (Guarded id) fun _ => Guarded id) := by
  cases call with
  | commit text =>
    exact Triple.bind (IbusTarget.commit_triple text) fun _ => Triple.ret _ fun s hs => hs
  | setPreedit text => exact IbusTarget.setPreedit_triple text
  | activated =>
    refine Triple.get_bind fun r hr => Triple.modify ?_
    rintro s rfl
    exact ⟨hr.lease, hr.sent⟩
  | lands landing => exact Triple.modify fun s hs => ⟨hs.lease, hs.sent⟩

theorem runCalls_triple (calls : List Call) :
    Triple (Guarded id) (runCalls calls) (Post (Guarded id) fun _ => Guarded id) := by
  induction calls with
  | nil => exact Triple.ret _ fun s hs => hs
  | cons call calls ih => exact Triple.bind call.run_triple fun _ => ih

theorem life_triple (calls : List Call) (released : Bool) :
    Triple (Guarded id) (life calls released) (Post (Guarded id) fun _ => Guarded id) := by
  refine Triple.bind (runCalls_triple calls) fun _ => ?_
  cases released with
  | true => exact IbusTarget.release_triple
  | false => exact Triple.ret _ fun s hs => hs

/-- **The right to write.** From any state of the engine and of the target, with any turns at its
awaits, the signals that put text into a field are all sent with the right to write if and only if
all of them are undisturbed. -/
theorem signals_have_right (calls : List Call) (released : Bool) (state : EngineState)
    (target : IbusTarget) (turns : List Turn) :
    let signals := textSignals ((life calls released).after { state, target, turns }).marks
    (∀ x ∈ signals, x.state.Right target.lease) ↔ ∀ x ∈ signals, x.Undisturbed target.lease := by
  have hrun := @life_triple target.lease calls released { state, target, turns }
    ⟨rfl, by simp [textSignals]⟩
  have hguarded : Guarded target.lease ((life calls released).after { state, target, turns }) := by
    unfold Suspend.after
    cases hresult : (life calls released { state, target, turns }).1 <;> rw [hresult] at hrun <;>
      exact hrun
  exact forall₂_congr hguarded.sent

/-- A field that a lease writes to. -/
def boundField : EngineState where
  lease := { id := 1, binding := .context "/field" }
  nextLease := 2

/-- **Focus leaves while a preedit is hidden.** The commit has been told that the lease stands, it
hides the preedit that is up, focus leaves while that is under way, and the text goes to whatever
has focus then. -/
theorem commit_after_focus_out :
    ¬ ∀ (calls : List Call) (released : Bool) (state : EngineState) (target : IbusTarget)
        (turns : List Turn),
      ∀ x ∈ textSignals ((life calls released).after { state, target, turns }).marks,
        x.state.Right target.lease := by
  intro h
  have hall := h [.setPreedit "he", .commit "hello"] false boundField { lease := 1 }
    [{}, {}, { landings := [.focus (.focusOut none)] }, {}]
  revert hall
  decide +kernel

end Ibus

end Desktop

end Myna

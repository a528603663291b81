import Myna.Client.DataPath

/-!
# Myna — captured audio is kept or the capture faults

The ring carries the audio and an atomic beside it the loss; what ties them is the order of the
reads. The loss is read first: once it says something, the data thread writes no more, so what the
ring holds then is all that was delivered before.

* **`Session.Inv`** — the state between any two steps of the two threads;
* **`Session.Inv.entered`** — the data thread handed a buffer over, or gave an account;
* **`Session.Inv.finish`** — a run of the `Drain` ends;
* **`capture_keeps`** — every order of steps.
-/

namespace Myna

namespace Native

/-! ## Codes -/

theorem micros_pos (lost : ℚ) : 0 < micros lost := by
  unfold micros Shared.OVERFLOW
  omega

theorem micros_lt (lost : ℚ) : micros lost < Shared.OVERFLOW := by
  unfold micros Shared.OVERFLOW
  omega

namespace Loss

/-- What the data thread latched is what the loop thread reads. -/
theorem ofCode_code (loss : Loss) : ofCode loss.code = some loss.rounded := by
  cases loss with
  | missed lost =>
    show (if micros lost = 0 then none else if micros lost = Shared.OVERFLOW then some overflow
      else some (missed (micros lost / 1000000))) = _
    rw [if_neg (micros_pos lost).ne', if_neg (micros_lt lost).ne]
    rfl
  | overflow => decide

theorem ofCode_eq_none {code : ℕ} : ofCode code = none ↔ code = 0 := by
  unfold ofCode
  split_ifs <;> simp_all

/-- The code of the first loss, read back. -/
theorem ofCode_elim (loss : Option Loss) : ofCode (loss.elim 0 code) = loss.map rounded := by
  cases loss with
  | none => rfl
  | some loss => exact ofCode_code loss

end Loss

theorem deficitCode_eq_zero {deficit : Option ℚ} : deficitCode deficit = 0 ↔ deficit = none := by
  cases deficit with
  | none => simp [deficitCode]
  | some lost => simp [deficitCode, (micros_pos lost).ne']

/-! ## The log -/

theorem firstLoss_concat (log : List Entry) (entry : Entry) :
    firstLoss (log ++ [entry]) = (firstLoss log).or entry.loss := by
  unfold firstLoss
  rw [List.findSome?_append]
  cases h : entry.loss <;> simp [h]

/-- The log from its first entry on. -/
theorem firstLoss_cons (entry : Entry) (log : List Entry) :
    firstLoss (entry :: log) = entry.loss.or (firstLoss log) := by
  unfold firstLoss
  cases h : entry.loss <;> simp [h]

theorem kept_cons (mix : Mix) (entry : Entry) (log : List Entry) :
    kept mix (entry :: log)
      = if entry.loss.isNone then entry.bytes mix ++ kept mix log else [] := by
  unfold kept
  rw [List.takeWhile_cons]
  split <;> rfl

/-- As long as nothing is lost everything is kept, and nothing after the first loss. -/
theorem kept_concat (mix : Mix) (log : List Entry) (entry : Entry) :
    kept mix (log ++ [entry]) =
      kept mix log ++ if (firstLoss (log ++ [entry])).isSome then [] else entry.bytes mix := by
  induction log with
  | nil =>
    rw [List.nil_append, kept_cons, firstLoss_cons]
    cases h : entry.loss with
    | none => simp [kept, firstLoss]
    | some loss => simp [kept]
  | cons first log ih =>
    rw [List.cons_append, kept_cons, kept_cons, firstLoss_cons]
    cases h : first.loss with
    | none =>
      simp only [Option.none_or, Option.isNone_none, if_true, ih, List.append_assoc]
      rfl
    | some loss => simp

/-! ## Between two steps -/

/-- What the loop thread has read of the loss. -/
def LoopPc.seen : LoopPc → Option (Option Loss)
  | .slots _ found => some found
  | .read _ found _ => some found
  | .push _ found _ => some found
  | _ => none

def LoopPc.why : LoopPc → Option Why
  | .idle => none
  | .loss why => some why
  | .slots why _ => some why
  | .read why _ _ => some why
  | .push why _ _ => some why

/-- What it has taken out of the ring, and not yet pushed. -/
def LoopPc.held : LoopPc → Bytes
  | .push _ _ bytes => bytes
  | _ => []

namespace Session

/-- What this run of the `Drain` is going to leave in the ring, of what is there now. -/
def rest (s : Session) : Bytes :=
  match s.loop with
  | .read _ _ available => s.ring.drop available
  | .push .. => s.ring
  | _ => []

/-- The code of the loss, the data thread having stored what it is about to. -/
def latched (s : Session) : ℕ :=
  match s.data with
  | .latching loss _ _ _ => loss.code
  | _ => s.shared.loss

/-- The code of the standing deficit, the data thread having stored what it is about to. -/
def unconfirmed (s : Session) : ℕ :=
  match s.data with
  | .holding deficit => deficitCode deficit
  | _ => s.shared.unconfirmed

/-- Between any two steps of a capture that has not ended. -/
structure Running (s : Session) : Prop where
  moved : s.pushed ++ (s.loop.held ++ s.ring) = kept s.path.mix s.log
  lost : s.path.lost = (firstLoss s.log).isSome
  latch : s.latched = (firstLoss s.log).elim 0 Loss.code
  /-- The latch is stored once. -/
  unstored : ∀ loss buffers frames time, s.data = .latching loss buffers frames time →
    s.shared.loss = 0
  owed : s.path.lost = false → s.unconfirmed = deficitCode s.path.continuity.outstanding
  /-- A run that read a loss, or that is the last, leaves nothing. -/
  settled : ∀ loss, s.loop.seen = some loss → loss.isSome ∨ s.data = .quiesced →
    loss = Loss.ofCode s.shared.loss ∧ s.rest = []
  last : s.loop.why = some .last → s.data = .quiesced
  drained : ∀ drained loss, s.drained = some drained → drained.loss = some loss →
    s.pushed = kept s.path.mix s.log ∧ (firstLoss s.log).map Loss.rounded = some loss
  reported : ∀ message, s.ending = some (.fault (.backend message)) →
    ∃ loss, firstLoss s.log = some loss ∧ loss.rounded.intoError = .backend message
  outcome : s.outcome = none

/-- After the last run of the `Drain`. -/
structure Over (s : Session) : Prop where
  data : s.data = .quiesced
  loop : s.loop = .idle
  keeps : Keeps s

theorem Running.keeps {s : Session} (h : Running s) : Keeps s where
  pushed := ⟨_, h.moved⟩
  drained := h.drained
  reported := h.reported
  ended := by
    intro outcome houtcome
    rw [h.outcome] at houtcome
    cases houtcome
  clean := by
    intro houtcome
    rw [h.outcome] at houtcome
    cases houtcome

/-- The data thread handed a buffer over, or gave an account; the ring took what was not lost. -/
theorem Running.entered {s : Session} (h : Running s) (entry : Entry) {path : DataPath}
    {data : DataPc} {ring : Bytes} (hbusy : s.latched = s.shared.loss) (hlive : s.data ≠ .quiesced)
    (hmix : path.mix = s.path.mix) (hlost : path.lost = (s.path.lost || entry.loss.isSome))
    (hring : ring = s.ring ++ if path.lost then [] else entry.bytes s.path.mix)
    (hlive' : data ≠ .quiesced)
    (hlatching : ∀ loss buffers frames time, data = .latching loss buffers frames time →
      s.path.lost = false)
    (hlatch : ({ s with data } : Session).latched
      = if s.path.lost then s.shared.loss else entry.loss.elim 0 Loss.code)
    (howed : path.lost = false →
      ({ s with data } : Session).unconfirmed = deficitCode path.continuity.outstanding) :
    Running { s with ring, path, data, log := s.log ++ [entry] } := by
  have hfirst := firstLoss_concat s.log entry
  have hlost' : path.lost = (firstLoss (s.log ++ [entry])).isSome := by
    rw [hlost, h.lost, hfirst, Option.isSome_or]
  have hkept : kept path.mix (s.log ++ [entry])
      = kept s.path.mix s.log ++ if path.lost then [] else entry.bytes s.path.mix := by
    rw [hmix, kept_concat, ← hlost']
  have hstored : s.shared.loss = (firstLoss s.log).elim 0 Loss.code := hbusy ▸ h.latch
  refine ⟨?_, hlost', ?_, ?_, howed, ?_, ?_, ?_, ?_, h.outcome⟩
  · show s.pushed ++ (s.loop.held ++ ring) = kept path.mix (s.log ++ [entry])
    rw [hring, hkept, ← h.moved]
    simp only [List.append_assoc]
  · show ({ s with data } : Session).latched = _
    rw [hlatch, hfirst, h.lost]
    cases hf : firstLoss s.log with
    | none => rfl
    | some loss =>
      rw [hstored, hf]
      rfl
  · intro loss buffers frames time hd
    have hnone : firstLoss s.log = none := by
      rw [← Option.not_isSome_iff_eq_none, ← h.lost, hlatching loss buffers frames time hd]
      decide
    show s.shared.loss = 0
    rw [hstored, hnone]
    rfl
  · intro loss hseen hwhen
    have hsome := hwhen.resolve_right hlive'
    obtain ⟨hloss, hrest⟩ := h.settled loss hseen (.inl hsome)
    -- a loss was read, so it is in the log and nothing more goes into the ring
    have hgone : s.path.lost = true := by
      rw [h.lost]
      by_contra hnone
      rw [hloss, hstored, Option.not_isSome_iff_eq_none.mp hnone] at hsome
      exact absurd hsome (by decide)
    rw [hlost, hgone, Bool.true_or, if_pos rfl, List.append_nil] at hring
    rw [hring]
    exact ⟨hloss, hrest⟩
  · intro hwhy
    exact absurd (h.last hwhy) hlive
  · intro drained loss hd hl
    obtain ⟨hall, hfound⟩ := h.drained drained loss hd hl
    have hsome : (firstLoss s.log).isSome := by
      rw [← Option.isSome_map (f := Loss.rounded), hfound]
      rfl
    show s.pushed = kept path.mix (s.log ++ [entry]) ∧ _
    rw [hkept, hlost', hfirst, Option.isSome_or, hsome, Bool.true_or, if_pos rfl, List.append_nil,
      Option.or_of_isSome hsome]
    exact ⟨hall, hfound⟩
  · intro message hending
    obtain ⟨loss, hfound, herror⟩ := h.reported message hending
    refine ⟨loss, ?_, herror⟩
    show firstLoss (s.log ++ [entry]) = some loss
    rw [hfirst, hfound, Option.some_or]

/-- The data thread goes on, or stores what it was about to. -/
theorem Running.goesOn {s : Session} (h : Running s) {data : DataPc} {shared : Shared}
    (hlive : data ≠ .quiesced) (hlast : s.data ≠ .quiesced)
    (hlatching : ∀ loss buffers frames time, data ≠ .latching loss buffers frames time)
    (hlatch : ({ s with data, shared } : Session).latched = s.latched)
    (howed : ({ s with data, shared } : Session).unconfirmed = s.unconfirmed)
    (hstored : s.shared.loss ≠ 0 → shared.loss = s.shared.loss) :
    Running { s with data, shared } := by
  refine ⟨h.moved, h.lost, hlatch.trans h.latch, ?_, fun hlost => howed.trans (h.owed hlost), ?_,
    fun hwhy => absurd (h.last hwhy) hlast, h.drained, h.reported, h.outcome⟩
  · intro loss buffers frames time hd
    exact absurd hd (hlatching loss buffers frames time)
  · intro loss hseen hwhen
    have hsome := hwhen.resolve_right hlive
    obtain ⟨hloss, hrest⟩ := h.settled loss hseen (.inl hsome)
    have hne : s.shared.loss ≠ 0 := by
      intro hzero
      rw [hloss, hzero] at hsome
      exact absurd hsome (by decide)
    exact ⟨hloss.trans (congrArg Loss.ofCode (hstored hne).symm), hrest⟩

/-- Nothing is latched as long as nothing is lost. -/
theorem Running.unlatched {s : Session} (h : Running s) (hlost : s.path.lost = false) :
    s.latched = 0 := by
  rw [h.lost, ← Bool.not_eq_true, Option.not_isSome_iff_eq_none] at hlost
  rw [h.latch, hlost]
  rfl

/-- The first loss is latched, and no other. -/
theorem Running.lose {s : Session} (h : Running s) {entry : Entry} {path : DataPath} {loss : Loss}
    {buffers : List Bytes} {frames : ℕ} {time : Clock} (hbusy : s.latched = s.shared.loss)
    (hlive : s.data ≠ .quiesced) (hmix : path.mix = s.path.mix) (hlost : path.lost = s.path.lost)
    (hentry : entry.loss = some loss) :
    Running (({ s with path, log := s.log ++ [entry] } : Session).lose loss buffers
      frames time) := by
  unfold Session.lose
  dsimp only
  split
  · next hgone =>
    apply h.entered entry hbusy hlive hmix
    · rw [hgone, ← hlost, hgone, Bool.true_or]
    · rw [if_pos hgone, List.append_nil]
    · exact DataPc.noConfusion
    · intro loss buffers frames time hd
      cases hd
    · exact (if_pos (hlost ▸ hgone)).symm
    · intro hnone
      exact absurd (hgone.symm.trans hnone) (by decide)
  · next hgone =>
    have hgone := Bool.eq_false_of_not_eq_true hgone
    apply h.entered entry hbusy hlive
    · exact hmix
    · rw [hentry, Option.isSome_some, Bool.or_true]
    · exact (List.append_nil _).symm
    · exact DataPc.noConfusion
    · intro _ _ _ _ _
      exact hlost ▸ hgone
    · rw [← hlost, hgone, hentry]
      rfl
    · intro hnone
      cases hnone

/-- A buffer is handed over, whole or not at all. -/
theorem Running.deliver {s : Session} (h : Running s) {samples : Bytes} {buffers : List Bytes}
    {frames : ℕ} {time : Clock} (hdata : s.data = .delivering (samples :: buffers) frames time) :
    Running (s.deliver samples buffers frames time) := by
  have hlive : s.data ≠ .quiesced := by
    rw [hdata]
    exact DataPc.noConfusion
  have hbusy : s.latched = s.shared.loss := by
    unfold latched
    rw [hdata]
  unfold Session.deliver
  dsimp only
  split
  · next hlost =>
    apply h.entered (.deliver samples _) hbusy hlive rfl
    · rw [hlost, Bool.true_or]
    · rw [if_pos hlost, List.append_nil]
    · exact DataPc.noConfusion
    · intro loss buffers frames time hd
      cases hd
    · exact (if_pos hlost).symm
    · intro hnone
      exact absurd (hlost.symm.trans hnone) (by decide)
  · next hlost =>
    have hlost := Bool.eq_false_of_not_eq_true hlost
    split
    · next hfits =>
      apply h.entered (.deliver samples _) hbusy hlive rfl
      · rw [hlost, Entry.loss, hfits]
        rfl
      · -- the chunk is filled
        rw [hlost, ← s.path.mix.length_whole samples, List.take_length]
        rfl
      · exact DataPc.noConfusion
      · intro loss buffers frames time hd
        cases hd
      · rw [hlost, Entry.loss, hfits]
        exact hbusy.symm.trans (h.unlatched hlost)
      · intro _
        rw [← h.owed hlost]
        unfold unconfirmed
        rw [hdata]
    · next hfits =>
      apply h.lose hbusy hlive rfl rfl
      exact if_neg hfits

/-- An account finds a loss, or says what is owed. -/
theorem Running.account {s : Session} (h : Running s) {ticks frames₀ frames : ℕ}
    {graphRate : ℕ × ℕ} {time : Clock} (hdata : s.data = .delivering [] frames₀ time) :
    Running (s.account ticks graphRate frames) := by
  have hlive : s.data ≠ .quiesced := by
    rw [hdata]
    exact DataPc.noConfusion
  have hbusy : s.latched = s.shared.loss := by
    unfold latched
    rw [hdata]
  unfold Session.account
  dsimp only
  -- the epoch changes neither the mix nor what is lost
  obtain ⟨path, hpath, hmix, hlost⟩ : ∃ path, (if s.shared.epoch ≠ s.path.epoch then
      { s.path with
        epoch := s.shared.epoch
        continuity := s.path.continuity.restart }
      else s.path) = path ∧ path.mix = s.path.mix ∧ path.lost = s.path.lost := by
    split <;> exact ⟨_, rfl, rfl, rfl⟩
  rw [hpath]
  split
  · next lost continuity hlost' =>
    apply h.lose hbusy hlive
    · exact hmix
    · exact hlost
    · rw [hlost']
      rfl
  · next hnone =>
    rw [hnone]
    apply h.entered (.account none) hbusy hlive
    · exact hmix
    · exact hlost.trans (Bool.or_false _).symm
    · split <;> exact (List.append_nil _).symm
    · exact DataPc.noConfusion
    · intro loss buffers frames time hd
      cases hd
    · show s.shared.loss = _
      split
      · rfl
      · next hgone => exact hbusy.symm.trans (h.unlatched (Bool.eq_false_of_not_eq_true hgone))
    · intro _
      rfl

/-- The `process` callback goes on. -/
theorem Running.callback {s s' : Session} (h : Running s) (hstep : s.callback = some s') :
    Running s' := by
  unfold Session.callback at hstep
  split at hstep
  · cases hstep
  · cases hstep
  · next samples buffers frames time hdata =>
    cases hstep
    exact h.deliver hdata
  · next frames time hdata =>
    have hidle : Running { s with data := .idle } := by
      apply h.goesOn <;> simp [hdata, latched, unconfirmed]
    split at hstep
    · split_ifs at hstep <;> cases hstep
      · exact hidle
      · exact h.account hdata
    · cases hstep
      exact hidle
  · next loss buffers frames time hdata =>
    cases hstep
    apply h.goesOn <;> simp [hdata, latched, unconfirmed]
    exact fun hne => absurd (h.unstored loss buffers frames time hdata) hne
  · next deficit hdata =>
    cases hstep
    apply h.goesOn <;> simp [hdata, latched, unconfirmed]

/-! ## The loop thread -/

/-- The supervisor blames no loss. -/
theorem tick_backend (s : Supervisor) (now : ℚ) (stopped : Bool) (message : String) :
    s.tick now stopped ≠ some (.fault (.backend message)) := by
  unfold Supervisor.tick
  intro h
  split_ifs at h
  · cases h
  · cases h
  · split at h
    · split_ifs at h
      split at h <;> cases h
    · cases h

/-- What a run of the poll timer leaves is what the run of the `Drain` did; the capture ends by a
loss only where that was read. -/
theorem finish_poll (s : Session) (now : ℚ) (stopped : Bool) (drained : Drained) :
    ∃ supervisor ending, s.finish (.poll now stopped) drained =
      { s with
        loop := .idle
        drained := some drained
        supervisor := supervisor
        ending := ending } ∧
      ∀ message, ending = some (.fault (.backend message)) → s.ending = ending ∨
        ∃ loss, drained.loss = some loss ∧ loss.intoError = .backend message := by
  unfold finish
  dsimp only
  obtain ⟨supervisor, hsupervisor⟩ : ∃ supervisor, (if drained.delivered then
      { s with
        loop := .idle
        drained := some drained
        supervisor := s.supervisor.delivered now }
      else
      { s with
        loop := .idle
        drained := some drained } : Session) =
      { s with
        loop := .idle
        drained := some drained
        supervisor := supervisor } := by
    split
    · exact ⟨_, rfl⟩
    · exact ⟨s.supervisor, rfl⟩
  rw [hsupervisor]
  refine ⟨supervisor, ((s.ending.or (if drained.abandoned then some .clean else none)).or
    (drained.loss.map fun loss => .fault loss.intoError)).or (supervisor.tick now stopped), ?_, ?_⟩
  · cases drained.abandoned <;> cases drained.loss <;>
      cases htick : supervisor.tick now stopped <;> simp [endWith, htick]
  · intro message hbackend
    cases hending : s.ending with
    | some first =>
      exact .inl rfl
    | none =>
      right
      rw [hending, Option.none_or] at hbackend
      obtain hended | ⟨-, htick⟩ := Option.or_eq_some_iff.mp hbackend
      · obtain hclean | ⟨-, hloss⟩ := Option.or_eq_some_iff.mp hended
        · split_ifs at hclean
          cases hclean
        · obtain ⟨loss, hfound, herror⟩ := Option.map_eq_some_iff.mp hloss
          exact ⟨loss, hfound, Ending.fault.inj herror⟩
      · exact absurd htick (tick_backend supervisor now stopped message)

/-- A loss that was read is the first. -/
theorem Running.stored {s : Session} (h : Running s)
    (hwhen : s.shared.loss ≠ 0 ∨ s.data = .quiesced) :
    Loss.ofCode s.shared.loss = (firstLoss s.log).map Loss.rounded := by
  have hlatched : s.latched = s.shared.loss := by
    unfold latched
    split
    · next loss buffers frames time hdata =>
      cases hwhen with
      | inl hne => exact absurd (h.unstored loss buffers frames time hdata) hne
      | inr hquiesced => cases hdata.symm.trans hquiesced
    · rfl
  rw [← hlatched, h.latch, Loss.ofCode_elim]

/-- A clean outcome: nothing was lost, and nothing is owed. -/
theorem finalEnding_clean {ending : Option Ending} {loss : Option Loss}
    (h : (finalEnding ending loss).bind Ending.intoFault = none) : loss = none := by
  cases loss with
  | none => rfl
  | some loss =>
    exfalso
    cases ending with
    | none => cases h
    | some why => cases why <;> cases h

/-- A loss is reported, unless a fault came before it. -/
theorem finalEnding_loss (ending : Option Ending) (loss : Loss) :
    (finalEnding ending (some loss)).bind Ending.intoFault = match ending with
      | some (.fault err) => some err
      | _ => some loss.intoError := by
  cases ending with
  | none => rfl
  | some why => cases why <;> rfl

/-- A run of the `Drain` ends, with all pushed that it took out. -/
theorem Running.finish {s : Session} (h : Running s) {why : Why} {loss : Option Loss}
    {drained : Drained} {s' : Session} (hwhy : s.loop.why = some why)
    (hseen : s.loop.seen = some loss) (hrest : s.rest = s.ring)
    (hs' : s' = ({ s with pushed := s.pushed ++ s.loop.held } : Session).finish why drained)
    (hdrained : drained.loss = loss) : Running s' ∨ Over s' := by
  have hmoved : s.pushed ++ s.loop.held ++ s.ring = kept s.path.mix s.log := by
    rw [List.append_assoc]
    exact h.moved
  have hall : loss.isSome ∨ s.data = .quiesced →
      s.pushed ++ s.loop.held = kept s.path.mix s.log ∧
        loss = (firstLoss s.log).map Loss.rounded := by
    intro hwhen
    obtain ⟨hloss, hempty⟩ := h.settled loss hseen hwhen
    rw [hrest] at hempty
    rw [hempty, List.append_nil] at hmoved
    refine ⟨hmoved, hloss.trans (h.stored (hwhen.imp_left fun hsome hzero => ?_))⟩
    rw [hloss, hzero] at hsome
    exact absurd hsome (by decide)
  have hreport : ∀ d found, some drained = some d → d.loss = some found →
      s.pushed ++ s.loop.held = kept s.path.mix s.log ∧
        (firstLoss s.log).map Loss.rounded = some found := by
    intro d found hd hfound
    cases hd
    have hloss := hdrained.symm.trans hfound
    obtain ⟨hpushed, hfirst⟩ := hall (.inl (by rw [hloss]; rfl))
    exact ⟨hpushed, hfirst.symm.trans hloss⟩
  cases why with
  | poll now stopped =>
    obtain ⟨supervisor, ending, heq, hending⟩ := finish_poll
      { s with pushed := s.pushed ++ s.loop.held } now stopped drained
    rw [hs', heq]
    refine .inl ⟨hmoved, h.lost, h.latch, h.unstored, h.owed, ?_, ?_, hreport, ?_, h.outcome⟩
    · intro found hnone
      cases hnone
    · intro hnone
      cases hnone
    · intro message hbackend
      cases hending message hbackend with
      | inl hsame => exact h.reported message (hsame.trans hbackend)
      | inr hloss =>
        obtain ⟨found, hfound, herror⟩ := hloss
        obtain ⟨first, hfirst, hrounded⟩ :=
          Option.map_eq_some_iff.mp (hreport drained found rfl hfound).2
        exact ⟨first, hfirst, hrounded ▸ herror⟩
  | last =>
    have hquiesced := h.last hwhy
    obtain ⟨hpushed, hfirst⟩ := hall (.inr hquiesced)
    rw [hs']
    refine .inr ⟨hquiesced, rfl, ⟨⟨[], ?_⟩, hreport, h.reported, ?_, ?_⟩⟩
    · rw [List.append_nil]
      exact hpushed
    · intro outcome houtcome
      refine ⟨hpushed, fun found hfound => ?_⟩
      have hfound : firstLoss s.log = some found := hfound
      rw [hfound] at hfirst
      cases houtcome
      rw [hdrained, hfirst]
      exact finalEnding_loss s.ending found.rounded
    · intro houtcome
      have hclean := finalEnding_clean (Option.some.inj houtcome)
      obtain ⟨hnone, howed⟩ : loss = none ∧ Loss.ofCode s.shared.unconfirmed = none := by
        rw [hdrained] at hclean
        cases loss with
        | none => exact ⟨rfl, hclean⟩
        | some found => cases hclean
      rw [hnone] at hfirst
      have hlog : firstLoss s.log = none := Option.map_eq_none_iff.mp hfirst.symm
      refine ⟨hlog, ?_⟩
      have hunconfirmed : s.unconfirmed = s.shared.unconfirmed := by
        unfold unconfirmed
        rw [hquiesced]
      show s.path.continuity.outstanding = none
      apply deficitCode_eq_zero.mp
      rw [← h.owed (by rw [h.lost, hlog]; rfl), hunconfirmed]
      exact Loss.ofCode_eq_none.mp howed

/-- The `Drain` goes on. -/
theorem Running.drain {s s' : Session} (h : Running s) {alive : Bool}
    (hstep : s.drain alive = some s') : Running s' ∨ Over s' := by
  unfold Session.drain at hstep
  split at hstep
  · cases hstep
  · next why hloop =>
    cases hstep
    refine .inl ⟨?_, h.lost, h.latch, h.unstored, h.owed, ?_, ?_, h.drained, h.reported,
      h.outcome⟩
    · have hmoved := h.moved
      rw [hloop] at hmoved
      exact hmoved
    · intro loss hseen _
      cases hseen
      exact ⟨rfl, rfl⟩
    · intro hwhy
      apply h.last
      rw [hloop]
      exact hwhy
  · next why loss hloop =>
    cases hstep
    refine .inl ⟨?_, h.lost, h.latch, h.unstored, h.owed, ?_, ?_, h.drained, h.reported,
      h.outcome⟩
    · have hmoved := h.moved
      rw [hloop] at hmoved
      exact hmoved
    · intro found hseen hwhen
      cases hseen
      exact ⟨(h.settled loss (by rw [hloop]; rfl) hwhen).1, List.drop_length⟩
    · intro hwhy
      apply h.last
      rw [hloop]
      exact hwhy
  · next why loss available hloop =>
    split_ifs at hstep with hsome
    · cases hstep
      refine .inl ⟨?_, h.lost, h.latch, h.unstored, h.owed, ?_, ?_, h.drained, h.reported,
      h.outcome⟩
      · have hmoved := h.moved
        rw [hloop] at hmoved
        show s.pushed ++ (s.ring.take available ++ s.ring.drop available) = _
        rw [List.take_append_drop]
        exact hmoved
      · intro found hseen hwhen
        cases hseen
        obtain ⟨hfound, hrest⟩ := h.settled loss (by rw [hloop]; rfl) hwhen
        unfold rest at hrest
        rw [hloop] at hrest
        exact ⟨hfound, hrest⟩
      · intro hwhy
        apply h.last
        rw [hloop]
        exact hwhy
    · cases hstep
      have hwhy : s.loop.why = some why := by
        rw [hloop]
        rfl
      have hseen : s.loop.seen = some loss := by
        rw [hloop]
        rfl
      apply h.finish hwhy hseen
      · unfold rest
        rw [hloop]
        show s.ring.drop available = s.ring
        rw [Nat.eq_zero_of_not_pos hsome, List.drop_zero]
      · rw [hloop]
        show _ = ({ s with pushed := s.pushed ++ [] } : Session).finish why _
        rw [List.append_nil]
      · rfl
  · next why loss bytes hloop =>
    cases hstep
    have hwhy : s.loop.why = some why := by
      rw [hloop]
      rfl
    have hseen : s.loop.seen = some loss := by
      rw [hloop]
      rfl
    apply h.finish hwhy hseen
    · unfold rest
      rw [hloop]
    · rw [hloop]
      rfl
    · rfl

/-- Whatever happens next. -/
theorem Running.step {s s' : Session} (h : Running s) {event : Event}
    (hstep : s.step event = some s') : Running s' ∨ Over s' := by
  cases event with
  | process buffers time =>
    dsimp only [Session.step] at hstep
    split at hstep
    · next hidle =>
      cases hstep
      refine .inl (h.goesOn DataPc.noConfusion ?_ ?_ ?_ ?_ ?_)
      · rw [hidle]
        exact DataPc.noConfusion
      all_goals simp [hidle, latched, unconfirmed]
    · cases hstep
  | callback => exact .inl (h.callback hstep)
  | poll now stopped =>
    dsimp only [Session.step] at hstep
    split at hstep
    · cases hstep
    · next hloop hdata =>
      cases hstep
      refine .inl ⟨?_, h.lost, h.latch, h.unstored, h.owed, ?_, ?_, h.drained, h.reported,
      h.outcome⟩
      · have hmoved := h.moved
        rw [hloop] at hmoved
        exact hmoved
      · intro loss hseen
        cases hseen
      · intro hwhy
        cases hwhy
    · cases hstep
  | drain alive => exact h.drain hstep
  | stateChanged state =>
    dsimp only [Session.step] at hstep
    split at hstep
    · cases hstep
    · cases hstep
      left
      cases state with
      | error detail =>
        refine ⟨h.moved, h.lost, h.latch, h.unstored, h.owed, h.settled, h.last, h.drained, ?_,
          h.outcome⟩
        -- the stream's own fault is of another kind
        intro message hending
        obtain hsame | ⟨-, herror⟩ := Option.or_eq_some_iff.mp hending
        · exact h.reported message hsame
        · cases herror
      | _ =>
        exact ⟨h.moved, h.lost, h.latch, h.unstored, h.owed, h.settled, h.last, h.drained,
          h.reported, h.outcome⟩
    · cases hstep
  | quiesce =>
    dsimp only [Session.step] at hstep
    split at hstep
    · next hloop hidle =>
      cases hstep
      refine .inl ⟨?_, h.lost, ?_, ?_, ?_, ?_, fun _ => rfl, h.drained, h.reported,
      h.outcome⟩
      · have hmoved := h.moved
        rw [hloop] at hmoved
        exact hmoved
      · rw [← h.latch]
        simp [latched, hidle]
      · intro loss buffers frames time hd
        cases hd
      · intro hlost
        rw [← h.owed hlost]
        simp [unconfirmed, hidle]
      · intro loss hseen
        cases hseen
    · cases hstep

/-- After the last run of the `Drain` nothing happens. -/
theorem Over.step {s s' : Session} (h : Over s) {event : Event} : s.step event ≠ some s' := by
  unfold Session.step Session.callback Session.drain
  cases event <;> simp [h.data, h.loop]

end Session

theorem running_connected (capacity rate : ℕ) (mix : Mix) (target : Option String) (now : ℚ) :
    (connected capacity rate mix target now).Running := by
  refine ⟨rfl, rfl, rfl, ?_, fun _ => ?_, ?_, ?_, ?_, ?_, rfl⟩
  · intro loss buffers frames time hd
    cases hd
  · -- the account opens with nothing owed
    have htolerance : 0 ≤ (Continuity.new rate).tolerance :=
      mul_nonneg (by unfold LOSS_TOLERANCE; norm_num) (Nat.cast_nonneg _)
    have hnone : (Continuity.new rate).outstanding = none := by
      apply if_neg
      apply not_lt.mpr
      exact add_nonneg (le_max_of_le_right htolerance) htolerance
    show 0 = deficitCode (Continuity.new rate).outstanding
    rw [hnone]
    rfl
  · intro loss hseen
    cases hseen
  · intro hwhy
    cases hwhy
  · intro drained loss hd
    cases hd
  · intro message hending
    cases hending

/-- A capture runs until it is over, whatever happens. -/
theorem run_inv {events : List Event} {s s' : Session} (h : s.Running ∨ s.Over)
    (hrun : s.run events = some s') : s'.Running ∨ s'.Over := by
  induction events generalizing s with
  | nil =>
    cases hrun
    exact h
  | cons event events ih =>
    obtain ⟨next, hstep, hrest⟩ := Option.bind_eq_some_iff.mp hrun
    cases h with
    | inl hrunning => exact ih (hrunning.step hstep) hrest
    | inr hover => exact absurd hstep hover.step

/-- **Captured audio is kept or the capture faults**, for every order of steps of the two
threads. -/
theorem capture_keeps (capacity rate : ℕ) (mix : Mix) (target : Option String) (now : ℚ)
    (events : List Event) (s : Session)
    (hrun : (connected capacity rate mix target now).run events = some s) : Keeps s := by
  cases run_inv (.inl (running_connected capacity rate mix target now)) hrun with
  | inl hrunning => exact hrunning.keeps
  | inr hover => exact hover.keeps

/-- The ring has room for one of two buffers; the loop thread reads the loss, and all that was
delivered before it. -/
def overflowRun : List Event :=
  [.process [[1, 2], [3, 4]] none, .callback, .callback, .callback, .callback,
    .poll 0 false, .drain true, .drain true, .drain true, .drain true,
    .quiesce, .drain true, .drain true, .drain true]

theorem overflow_kept : ∃ s, (connected 2 1000 (.passthrough 2) none 0).run overflowRun = some s ∧
    s.pushed = [1, 2] ∧ s.outcome = some (some Loss.overflow.intoError) ∧ Keeps s := by
  obtain ⟨s, hrun⟩ := Option.isSome_iff_exists.mp (show
    ((connected 2 1000 (.passthrough 2) none 0).run overflowRun).isSome from by decide +kernel)
  have hresult : ((connected 2 1000 (.passthrough 2) none 0).run overflowRun).map
      (fun s => (s.pushed, s.outcome)) = some ([1, 2], some (some Loss.overflow.intoError)) := by
    decide +kernel
  rw [hrun] at hresult
  obtain ⟨hpushed, houtcome⟩ := Prod.mk.inj (Option.some.inj hresult)
  exact ⟨s, hrun, hpushed, houtcome, capture_keeps _ _ _ _ _ _ s hrun⟩

end Native

end Myna

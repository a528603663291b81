import Myna.Streaming.Levels

/-!
# Myna — the two high-pass filters (`myna_audio::voice`, `myna.testbed.streaming.highpass`)

The client measures voice through a filter that takes one sample at a time, the server levels
through one that solves the same recurrence in closed form over blocks. Each starts from its first
sample, so that an offset present from the start does not ring through as a step.

* **`HighPass.filter`** — one sample of one channel, as the client filters it;
* **`recurrence`** — `y[n] = R (y[n-1] + x[n] - x[n-1])`, from any state;
* **`HighPass.filterAll_spec`** — a channel of the client's filter follows it, whatever the others
  hear;
* **`callAll_spec`** — and so does the server's, block by block;
* **`highPass_chunkInvariant`** — both, over every split of a signal.
-/

namespace Myna

namespace Voice

open Real

/-! ## The recurrence -/

section Recurrence

variable {K : Type*} [Field K]

/-- The recurrence from its last input and output: both after each sample. -/
def recurrence (pole : K) : K × K → List K → List (K × K)
  | _, [] => []
  | (prevIn, prevOut), x :: xs =>
    let y := pole * (prevOut + x - prevIn)
    (x, y) :: recurrence pole (x, y) xs

/-- The recurrence from what was heard so far: from the first sample and no output where that is
nothing. -/
def follow (pole : K) (heard : Option (K × K)) (xs : List K) : List (K × K) :=
  recurrence pole (heard.getD (xs.headD 0, 0)) xs

theorem follow_cons (pole : K) (heard : Option (K × K)) (x : K) (xs : List K) :
    follow pole heard (x :: xs) =
      (x, pole * ((heard.getD (x, 0)).2 + x - (heard.getD (x, 0)).1)) ::
        follow pole
          (some (x, pole * ((heard.getD (x, 0)).2 + x - (heard.getD (x, 0)).1))) xs := rfl

/-- What was heard after some samples is where the next ones go on from. -/
theorem follow_append (pole : K) (heard : Option (K × K)) (xs ys : List K) :
    follow pole heard (xs ++ ys) =
      follow pole heard xs ++ follow pole ((follow pole heard xs).getLast?.or heard) ys := by
  induction xs generalizing heard with
  | nil => rfl
  | cons x xs ih =>
    rw [List.cons_append, follow_cons, ih, follow_cons, List.cons_append, List.getLast?_cons]
    cases (follow pole (some (x, pole * ((heard.getD (x, 0)).2 + x - (heard.getD (x, 0)).1)))
      xs).getLast? <;> rfl

/-- The outputs of the recurrence are the one-pole filter over the differences of its input. -/
theorem map_snd_recurrence (pole : K) (s : K × K) (xs : List K) :
    (recurrence pole s xs).map Prod.snd = onePole pole s.2 (diffs s.1 xs) := by
  induction xs generalizing s with
  | nil => rfl
  | cons x xs ih =>
    show pole * (s.2 + x - s.1) :: (recurrence pole _ xs).map Prod.snd = _
    rw [ih, diffs, onePole, add_sub_assoc]

theorem map_fst_recurrence (pole : K) (s : K × K) (xs : List K) :
    (recurrence pole s xs).map Prod.fst = xs := by
  induction xs generalizing s with
  | nil => rfl
  | cons x xs ih =>
    show x :: (recurrence pole _ xs).map Prod.fst = _
    rw [ih]

theorem map_fst_follow (pole : K) (heard : Option (K × K)) (xs : List K) :
    (follow pole heard xs).map Prod.fst = xs :=
  map_fst_recurrence _ _ _

theorem length_follow (pole : K) (heard : Option (K × K)) (xs : List K) :
    (follow pole heard xs).length = xs.length := by
  rw [← List.length_map Prod.fst, map_fst_follow]

end Recurrence

/-! ## The filter of the client -/

/-- `HighPass`: the pole, and for each channel its previous input and output. -/
structure HighPass (K : Type*) where
  pole : K
  state : List (Option (K × K))

def HIGH_PASS_HZ : ℝ := 80

/-- The samples of one of `channels` slots. -/
def ofSlot {α : Type*} (channels slot : ℕ) (samples : List (ℕ × α)) : List α :=
  (samples.filter fun s => decide (s.1 % channels = slot)).map Prod.snd

namespace HighPass

noncomputable def new (sampleRateHz channels : ℕ) (cutoffHz : ℝ) : HighPass ℝ where
  pole := exp (-2 * π * cutoffHz / (max sampleRateHz 1 : ℕ))
  state := List.replicate (max channels 1) none

variable {K : Type*} [Field K]

/-- Filter the next sample of `channel` (wrapped into range). -/
def filter (f : HighPass K) (channel : ℕ) (x : K) : K × HighPass K :=
  let slot := channel % f.state.length
  let (prevIn, prevOut) := ((f.state[slot]?).getD none).getD (x, 0)
  let y := f.pole * (prevOut + x - prevIn)
  (y, { f with state := f.state.set slot (some (x, y)) })

/-- Samples one after the other, each with its channel. -/
def filterAll : HighPass K → List (ℕ × K) → List K × HighPass K
  | f, [] => ([], f)
  | f, (channel, x) :: rest =>
    let (y, f) := f.filter channel x
    let (ys, f) := f.filterAll rest
    (y :: ys, f)

/-- Blocks of samples one after the other: what each comes to. -/
def filterBlocks : HighPass K → List (List (ℕ × K)) → List (List K) × HighPass K
  | f, [] => ([], f)
  | f, block :: rest =>
    let (ys, f) := f.filterAll block
    let (yss, f) := f.filterBlocks rest
    (ys :: yss, f)

theorem filter_state (f : HighPass K) (channel : ℕ) (x : K) :
    (f.filter channel x).2.pole = f.pole ∧
      (f.filter channel x).2.state.length = f.state.length := by
  unfold filter
  exact ⟨rfl, List.length_set⟩

theorem length_filterAll (f : HighPass K) (samples : List (ℕ × K)) :
    (f.filterAll samples).1.length = samples.length := by
  induction samples generalizing f with
  | nil => rfl
  | cons s samples ih =>
    show (f.filter s.1 s.2).2.filterAll samples |>.1.length + 1 = _
    rw [ih, List.length_cons]

theorem filterAll_append (f : HighPass K) (xs ys : List (ℕ × K)) :
    (f.filterAll (xs ++ ys)).1 =
        (f.filterAll xs).1 ++ ((f.filterAll xs).2.filterAll ys).1 ∧
      (f.filterAll (xs ++ ys)).2 = ((f.filterAll xs).2.filterAll ys).2 := by
  induction xs generalizing f with
  | nil => exact ⟨rfl, rfl⟩
  | cons x xs ih =>
    obtain ⟨houts, hstate⟩ := ih (f.filter x.1 x.2).2
    exact ⟨congrArg (List.cons (f.filter x.1 x.2).1) houts, hstate⟩

/-- Blocks are their samples, one after the other. -/
theorem filterBlocks_eq (f : HighPass K) (blocks : List (List (ℕ × K))) :
    (f.filterBlocks blocks).1.flatten = (f.filterAll blocks.flatten).1 ∧
      (f.filterBlocks blocks).1.map List.length = blocks.map List.length ∧
      (f.filterBlocks blocks).2 = (f.filterAll blocks.flatten).2 := by
  induction blocks generalizing f with
  | nil => exact ⟨rfl, rfl, rfl⟩
  | cons block blocks ih =>
    obtain ⟨houts, hlengths, hstate⟩ := ih (f.filterAll block).2
    obtain ⟨houts', hstate'⟩ := f.filterAll_append block blocks.flatten
    rw [List.flatten_cons]
    refine ⟨?_, ?_, hstate.trans hstate'.symm⟩
    · rw [houts', ← houts]
      rfl
    · show (f.filterAll block).1.length :: _ = _
      rw [length_filterAll, hlengths, List.map_cons]

/-- **A channel follows the recurrence**, whatever the others hear. Induction on the samples: one
of another channel leaves the slot alone. -/
theorem filterAll_spec (f : HighPass K) (samples : List (ℕ × K)) {slot : ℕ} {heard : Option (K × K)}
    (hslot : f.state[slot]? = some heard) :
    ofSlot f.state.length slot ((samples.map Prod.fst).zip (f.filterAll samples).1) =
        (follow f.pole heard (ofSlot f.state.length slot samples)).map Prod.snd ∧
      (f.filterAll samples).2.state[slot]? =
        some ((follow f.pole heard (ofSlot f.state.length slot samples)).getLast?.or heard) := by
  induction samples generalizing f heard with
  | nil => exact ⟨rfl, hslot⟩
  | cons s samples ih =>
    obtain ⟨channel, x⟩ := s
    obtain ⟨hpole, hlength⟩ := f.filter_state channel x
    have hzip : ((((channel, x) :: samples).map Prod.fst).zip
      (f.filterAll ((channel, x) :: samples)).1)
        = (channel, (f.filter channel x).1) ::
          ((samples.map Prod.fst).zip ((f.filter channel x).2.filterAll samples).1) := rfl
    have hrest : (f.filterAll ((channel, x) :: samples)).2 =
        ((f.filter channel x).2.filterAll samples).2 := rfl
    rw [hzip, hrest]
    by_cases hc : channel % f.state.length = slot
    · -- the slot's own sample
      have hlt : slot < f.state.length := (List.getElem?_eq_some_iff.mp hslot).1
      have hnext : (f.filter channel x).2.state[slot]? =
          some (some (x, f.pole * ((heard.getD (x, 0)).2 + x - (heard.getD (x, 0)).1))) := by
        unfold filter
        simp only [hc, hslot, Option.getD_some]
        rw [List.getElem?_set_self hlt]
      have hout : (f.filter channel x).1 =
          f.pole * ((heard.getD (x, 0)).2 + x - (heard.getD (x, 0)).1) := by
        unfold filter
        simp only [hc, hslot, Option.getD_some]
      obtain ⟨houts, hstate⟩ := ih (f.filter channel x).2 hnext
      rw [hpole, hlength] at houts hstate
      have hhere : ∀ (y : K) (l : List (ℕ × K)), ofSlot f.state.length slot ((channel, y) :: l) =
          y :: ofSlot f.state.length slot l := by
        intro y l
        simp [ofSlot, hc]
      rw [hhere, hhere, follow_cons, List.map_cons, houts, hstate, hout, List.getLast?_cons]
      refine ⟨rfl, ?_⟩
      cases (follow f.pole (some (x, f.pole * ((heard.getD (x, 0)).2 + x - (heard.getD (x, 0)).1)))
        (ofSlot f.state.length slot samples)).getLast? <;> rfl
    · have hnext : (f.filter channel x).2.state[slot]? = some heard := by
        unfold filter
        rw [← hslot]
        exact List.getElem?_set_ne hc
      obtain ⟨houts, hstate⟩ := ih (f.filter channel x).2 hnext
      rw [hpole, hlength] at houts hstate
      have hother : ∀ (y : K) (l : List (ℕ × K)), ofSlot f.state.length slot ((channel, y) :: l) =
          ofSlot f.state.length slot l := by
        intro y l
        simp [ofSlot, hc]
      rw [hother, hother]
      exact ⟨houts, hstate⟩

end HighPass

/-! ## The filter of the server -/

section Server

variable {K : Type*} [Field K]

/-- `HighPass.__call__` on blocks one after the other: what each comes to. -/
def callAll (num : Numerics K) :
    Myna.HighPass K → List (List K) → List (List K) × Myna.HighPass K
  | f, [] => ([], f)
  | f, block :: rest =>
    let (y, f) := f.call num block
    let (ys, f) := callAll num f rest
    (y :: ys, f)

/-- The filter that has heard this. -/
def heardBy (heard : Option (K × K)) : Myna.HighPass K :=
  ⟨heard.map Prod.fst, (heard.map Prod.snd).getD 0⟩

theorem call_heardBy {num : Numerics K} (hp : num.pole ≠ 0) (heard : Option (K × K))
    (block : List K) :
    (heardBy heard).call num block =
      ((follow num.pole heard block).map Prod.snd,
        heardBy ((follow num.pole heard block).getLast?.or heard)) := by
  cases block with
  | nil => rfl
  | cons x xs =>
    have hstart : (heardBy heard).prevIn.getD x = (heard.getD (x, 0)).1 ∧
        (heardBy heard).prevOut = (heard.getD (x, 0)).2 := by
      cases heard <;> exact ⟨rfl, rfl⟩
    have houts : (follow num.pole heard (x :: xs)).map Prod.snd =
        onePole num.pole (heard.getD (x, 0)).2 (diffs (heard.getD (x, 0)).1 (x :: xs)) :=
      map_snd_recurrence _ _ _
    have hins := map_fst_follow num.pole heard (x :: xs)
    rw [Myna.HighPass.call_eq_onePole hp, hstart.1, hstart.2, ← houts]
    generalize follow num.pole heard (x :: xs) = ps at houts hins ⊢
    obtain ⟨p, hlast⟩ : ∃ p, ps.getLast? = some p := by
      cases ps with
      | nil => cases hins
      | cons q qs => exact ⟨_, List.getLast?_cons⟩
    rw [hlast]
    have hin : (x :: xs).getLastD x = p.1 := by
      rw [← hins, List.getLastD_eq_getLast?, List.getLast?_map, hlast]
      rfl
    have hout : (ps.map Prod.snd).getLastD (heard.getD (x, 0)).2 = p.2 := by
      rw [List.getLastD_eq_getLast?, List.getLast?_map, hlast]
      rfl
    rw [hin, hout]
    rfl

/-- **Blocks follow the recurrence over their samples**, and leave behind what was heard last. -/
theorem callAll_spec {num : Numerics K} (hp : num.pole ≠ 0) (heard : Option (K × K))
    (blocks : List (List K)) :
    (callAll num (heardBy heard) blocks).1.flatten =
        (follow num.pole heard blocks.flatten).map Prod.snd ∧
      (callAll num (heardBy heard) blocks).1.map List.length = blocks.map List.length ∧
      (callAll num (heardBy heard) blocks).2 =
        heardBy ((follow num.pole heard blocks.flatten).getLast?.or heard) := by
  induction blocks generalizing heard with
  | nil => exact ⟨rfl, rfl, rfl⟩
  | cons block blocks ih =>
    obtain ⟨houts, hlengths, hstate⟩ := ih ((follow num.pole heard block).getLast?.or heard)
    unfold callAll
    rw [call_heardBy hp]
    dsimp only
    rw [List.flatten_cons, List.flatten_cons, follow_append, List.map_append, houts, List.map_cons,
      hlengths, List.map_cons, List.length_map, length_follow, hstate, List.getLast?_append]
    refine ⟨rfl, rfl, ?_⟩
    rw [Option.or_assoc]

end Server

/-! ## Both -/

/-- The two filters share their pole. -/
theorem new_pole (channels : ℕ) :
    (HighPass.new 16000 channels HIGH_PASS_HZ).pole = realNumerics.pole := by
  show exp (-2 * π * 80 / ((max 16000 1 : ℕ) : ℝ)) = exp (-2 * π * 80 / 16000)
  norm_num

/-- **The two filters are chunk-invariant and agree.** Over every split of a signal into blocks,
each yields the recurrence from the first sample and no output, and carries its last input and
output; so does each channel of the client's, and on one channel they yield the same blocks. -/
theorem highPass_chunkInvariant (blocks : List (List ℝ)) :
    ((callAll realNumerics Myna.HighPass.new blocks).1.flatten =
        (follow realNumerics.pole none blocks.flatten).map Prod.snd ∧
      (callAll realNumerics Myna.HighPass.new blocks).2 =
        heardBy (follow realNumerics.pole none blocks.flatten).getLast?) ∧
    (∀ (channels : ℕ) (calls : List (List (ℕ × ℝ))) (slot : ℕ), slot < max channels 1 →
      ofSlot (max channels 1) slot ((calls.flatten.map Prod.fst).zip
          ((HighPass.new 16000 channels HIGH_PASS_HZ).filterBlocks calls).1.flatten) =
        (follow realNumerics.pole none (ofSlot (max channels 1) slot calls.flatten)).map Prod.snd ∧
      ((HighPass.new 16000 channels HIGH_PASS_HZ).filterBlocks calls).2.state[slot]? =
        some (follow realNumerics.pole none
          (ofSlot (max channels 1) slot calls.flatten)).getLast?) ∧
    ((HighPass.new 16000 1 HIGH_PASS_HZ).filterBlocks
        (blocks.map fun block => block.map fun x => (0, x))).1 =
      (callAll realNumerics Myna.HighPass.new blocks).1 := by
  obtain ⟨houts, hlengths, hstate⟩ := callAll_spec pole_ne_zero none blocks
  have hclient : ∀ (channels : ℕ) (calls : List (List (ℕ × ℝ))) (slot : ℕ),
      slot < max channels 1 →
      ofSlot (max channels 1) slot ((calls.flatten.map Prod.fst).zip
          ((HighPass.new 16000 channels HIGH_PASS_HZ).filterBlocks calls).1.flatten) =
        (follow realNumerics.pole none (ofSlot (max channels 1) slot calls.flatten)).map Prod.snd ∧
      ((HighPass.new 16000 channels HIGH_PASS_HZ).filterBlocks calls).2.state[slot]? =
        some (follow realNumerics.pole none
          (ofSlot (max channels 1) slot calls.flatten)).getLast? := by
    intro channels calls slot hslot
    have hnew : (HighPass.new 16000 channels HIGH_PASS_HZ).state[slot]? = some none :=
      List.getElem?_replicate_of_lt hslot
    have hlength : (HighPass.new 16000 channels HIGH_PASS_HZ).state.length = max channels 1 :=
      List.length_replicate
    obtain ⟨hflat, -, hlast⟩ := (HighPass.new 16000 channels HIGH_PASS_HZ).filterBlocks_eq calls
    have hspec := (HighPass.new 16000 channels HIGH_PASS_HZ).filterAll_spec calls.flatten hnew
    rw [hlength, new_pole, Option.or_none] at hspec
    rw [hflat, hlast]
    exact hspec
  rw [Option.or_none] at hstate
  refine ⟨⟨houts, hstate⟩, hclient, ?_⟩
  -- on one channel, the blocks have the same samples and the same lengths
  have hone : ∀ (xs : List ℝ), ofSlot 1 0 (xs.map fun x => ((0 : ℕ), x)) = xs := by
    intro xs
    induction xs with
    | nil => rfl
    | cons x xs ih => exact congrArg (List.cons x) ih
  have hzip : ∀ (xs ys : List ℝ), xs.length = ys.length →
      ofSlot 1 0 (((xs.map fun x => ((0 : ℕ), x)).map Prod.fst).zip ys) = ys := by
    intro xs
    induction xs with
    | nil => intro ys hys; rw [List.length_eq_zero_iff.mp hys.symm]; rfl
    | cons x xs ih =>
      intro ys hys
      cases ys with
      | nil => cases hys
      | cons y ys => exact congrArg (List.cons y) (ih ys (Nat.succ.inj hys))
  obtain ⟨hflat, hblocks, -⟩ := (HighPass.new 16000 1 HIGH_PASS_HZ).filterBlocks_eq
    (blocks.map fun block => block.map fun x => (0, x))
  refine List.eq_iff_flatten_eq.mpr ⟨?_, ?_⟩
  · have hmono := (hclient 1 (blocks.map fun block => block.map fun x => (0, x)) 0 (by decide)).1
    rw [← List.map_flatten, show max 1 1 = 1 from rfl, hone, hzip] at hmono
    · exact hmono.trans houts.symm
    · rw [hflat, HighPass.length_filterAll, ← List.map_flatten, List.length_map]
  · refine hblocks.trans (Eq.trans ?_ hlengths.symm)
    rw [List.map_map]
    exact List.map_congr_left fun block _ => List.length_map _

/-- A filter that started from zero would ring through an offset: this one does not. -/
theorem offset_heard :
    ¬ ∀ blocks : List (List ℝ), (callAll realNumerics Myna.HighPass.new blocks).1.flatten =
      (recurrence realNumerics.pole (0, 0) blocks.flatten).map Prod.snd := by
  intro h
  have hone := h [[1]]
  rw [show (callAll realNumerics Myna.HighPass.new [[1]]).1.flatten = _ from
    (callAll_spec pole_ne_zero none [[1]]).1] at hone
  have hhead : realNumerics.pole * (0 + 1 - 1) = realNumerics.pole * (0 + 1 - 0) :=
    List.head_eq_of_cons_eq hone
  have hpos := pole_pos
  linarith

end Voice

end Myna

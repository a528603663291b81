import Myna.Testbed.ParakeetRuns

/-!
# Myna — how often the biased decode goes back

Time runs backwards on a broken match. What does not is the settled place, and the attempts at it:
the model's own match, its rival, and none.

* **`Loop.breaks`**, **`Loop.standing`** — `broken` and `rewind` at the assertion of a turn;
* **`body_cases`** — a turn goes back on the rewind it stands on, or keeps a token;
* **`count_rewinds_le`** — how often a loop goes back to a place, from any head;
* **`Emits.body`** — what a turn leaves emitted, place by place;
* **`decode_settles`** — the result.
-/

namespace Myna

namespace Parakeet

section Decode

variable {Frame S : Type} (M : Model Frame S) (encodings : ℕ → Frame) (encodingsLen : ℕ)

/-! ## The turns that go back -/

namespace Loop

/-- `broken` at the end of a turn. -/
def breaks (m : Matcher) (L : Loop S) : Bool :=
  if L.here.t < encodingsLen then L.broken M m (L.pick M encodings m) else true

/-- `rewind` at the end of a turn. -/
def standing (m : Matcher) (L : Loop S) : Option (Rewind S) :=
  if L.here.t < encodingsLen then (L.pick M encodings m).rewind else L.rewind

/-- The places that the first turns go back to. -/
def rewinds (bias : KeywordBias) : ℕ → Loop S → List (Place S)
  | 0, _ => []
  | n + 1, L =>
    if L.test encodingsLen then
      (if L.breaks M encodings encodingsLen (biased bias) then
        (L.standing M encodings encodingsLen (biased bias)).toList.map Rewind.place else []) ++
      rewinds bias n (L.body M encodings encodingsLen (some bias))
    else []

/-- How often the loop may still go back to the settled place. -/
def backs (L : Loop S) : ℕ :=
  match L.rewind with
  | some r => if r.own then 2 else 1
  | none => if L.unbiased then 0 else if L.rival then 1 else 2

theorem backs_le (L : Loop S) : L.backs ≤ 2 := by
  unfold backs
  split
  · split <;> omega
  · split
    · omega
    · split <;> omega

theorem body_eq (bias : KeywordBias) (L : Loop S) :
    L.body M encodings encodingsLen (some bias) =
      if L.breaks M encodings encodingsLen (biased bias) then
        L.goBack (L.standing M encodings encodingsLen (biased bias))
      else L.keep M encodings (some bias) (L.pick M encodings (biased bias)) := by
  unfold body breaks standing
  split
  · rfl
  · rfl

/-- The rewind that a turn which keeps its token stands on: the one before, or one to here. -/
def Begins (L : Loop S) (rewind : Option (Rewind S)) : Prop :=
  rewind = L.rewind ∨ L.rewind = none ∧ L.unbiased = false ∧
    ∃ own, rewind = some ⟨L.here, L.tokens.length, own⟩ ∧ (own = true → L.rival = false)

end Loop

/-- **A turn** goes back on the rewind it stands on, or keeps a token. -/
theorem body_cases (bias : KeywordBias) {L : Loop S} (htest : L.test encodingsLen = true) :
    (∃ r, L.breaks M encodings encodingsLen (biased bias) = true ∧
      L.standing M encodings encodingsLen (biased bias) = some r ∧ L.rewind = some r ∧
      L.body M encodings encodingsLen (some bias) = L.goBack (some r)) ∨
    (L.breaks M encodings encodingsLen (biased bias) = false ∧ L.here.t < encodingsLen ∧
      L.Begins (L.pick M encodings (biased bias)).rewind ∧
      L.body M encodings encodingsLen (some bias) =
        L.keep M encodings (some bias) (L.pick M encodings (biased bias))) := by
  have hback : ∀ r, L.breaks M encodings encodingsLen (biased bias) = true →
      L.standing M encodings encodingsLen (biased bias) = some r →
      L.body M encodings encodingsLen (some bias) = L.goBack (some r) := by
    intro r hbreaks hstanding
    rw [Loop.body_eq, if_pos hbreaks, hstanding]
  by_cases ht : L.here.t < encodingsLen
  · have hstanding : L.standing M encodings encodingsLen (biased bias) =
        (L.pick M encodings (biased bias)).rewind := if_pos ht
    have hbreaks : L.breaks M encodings encodingsLen (biased bias) =
        L.broken M (biased bias) (L.pick M encodings (biased bias)) := if_pos ht
    have hbegins : L.Begins (L.pick M encodings (biased bias)).rewind ∧
        (L.broken M (biased bias) (L.pick M encodings (biased bias)) = true →
          (L.pick M encodings (biased bias)).rewind = L.rewind) := by
      rcases pick_cases M encodings (biased bias) L with
        hpick | ⟨chosen, starts, hpick, -, hunbiased, hrewind, -, -, hrival⟩ | ⟨chosen, hpick, -⟩
      · rw [hpick]
        exact ⟨.inl rfl, fun _ => rfl⟩
      · rw [hpick]
        refine ⟨.inr ⟨hrewind, hunbiased, starts, rfl, hrival⟩, fun hbroken => ?_⟩
        -- a fresh match does not break
        simp [Loop.broken] at hbroken
      · rw [hpick]
        exact ⟨.inl rfl, fun _ => rfl⟩
    cases hb : L.broken M (biased bias) (L.pick M encodings (biased bias)) with
    | true =>
      have hsome : (L.pick M encodings (biased bias)).rewind.isSome = true := by
        simp only [Loop.broken, Bool.and_eq_true] at hb
        exact hb.1.2
      obtain ⟨r, hr⟩ := Option.isSome_iff_exists.mp hsome
      rw [hb] at hbreaks
      rw [hr] at hstanding
      exact .inl ⟨r, hbreaks, hstanding, (hbegins.2 hb).symm.trans hr, hback r hbreaks hstanding⟩
    | false =>
      rw [hb] at hbreaks
      refine .inr ⟨hbreaks, ht, hbegins.1, ?_⟩
      rw [Loop.body_eq, if_neg (by rw [hbreaks]; exact Bool.false_ne_true)]
  · -- the audio has ended within a match
    have hsome : L.rewind.isSome = true := by simpa [Loop.test, ht] using htest
    obtain ⟨r, hr⟩ := Option.isSome_iff_exists.mp hsome
    have hbreaks : L.breaks M encodings encodingsLen (biased bias) = true := if_neg ht
    have hstanding : L.standing M encodings encodingsLen (biased bias) = some r := by
      rw [Loop.standing, if_neg ht, hr]
    exact .inl ⟨r, hbreaks, hstanding, hr, hback r hbreaks hstanding⟩

/-! ## How often -/

variable {M encodings encodingsLen}

variable (M encodings) in
/-- A turn that keeps its token settles more, or leaves the settled place and no more attempts. -/
theorem settled_keep (bias : KeywordBias) {L : Loop S} (h : Bounded encodingsLen L)
    (ht : L.here.t < encodingsLen) {p : Loop.Pick S} (hbegins : L.Begins p.rewind) :
    progress encodingsLen L.settled
        < progress encodingsLen (L.keep M encodings (some bias) p).settled ∨
      (L.keep M encodings (some bias) p).settled = L.settled ∧
        (L.keep M encodings (some bias) p).backs ≤ L.backs := by
  obtain ⟨hhere, hrewind⟩ := keep_cases M encodings (some bias) L p
  have hmore := (progress_take M encodings (matcher (some bias)) p.token ht h.here).1
  rw [← hhere] at hmore
  generalize L.keep M encodings (some bias) p = L' at hhere hrewind hmore ⊢
  have hbehind : progress encodingsLen L.settled ≤ progress encodingsLen L.here := by
    unfold Loop.settled
    cases hr : L.rewind with
    | none => exact le_rfl
    | some r => exact (h.rewind r hr).2.2.le
  have hfree : L'.rewind = none →
      progress encodingsLen L.settled < progress encodingsLen L'.settled := by
    intro hnone
    simp only [Loop.settled, hnone, Option.elim_none]
    exact hbehind.trans_lt hmore
  rcases hrewind with hnone | hsame
  · exact .inl (hfree hnone)
  · rcases hbegins with hold | ⟨hnone, hunbiased, own, hnew, hrival⟩
    · cases hr : L.rewind with
      | none => exact .inl (hfree (hsame.trans (hold.trans hr)))
      | some r =>
        -- the match goes on
        have hr' : L'.rewind = some r := hsame.trans (hold.trans hr)
        refine .inr ⟨?_, ?_⟩
        · simp only [Loop.settled, hr, hr', Option.elim_some]
        · simp only [Loop.backs, hr, hr', le_refl]
    · -- a match begins here, and a rival is not the model's own
      have hr' : L'.rewind = some ⟨L.here, L.tokens.length, own⟩ := hsame.trans hnew
      refine .inr ⟨?_, ?_⟩
      · simp only [Loop.settled, hnone, hr', Option.elim_some, Option.elim_none]
      · simp only [Loop.backs, hnone, hr', hunbiased]
        cases own with
        | true => simp [hrival rfl]
        | false => cases L.rival <;> simp

variable (M encodings) in
/-- **How often a loop goes back to a place**: never behind the settled one, to that one while there
are attempts left, and at most twice to any ahead. Induction on the turns. -/
theorem count_rewinds_le (bias : KeywordBias) (n : ℕ) {L : Loop S} (h : Bounded encodingsLen L)
    (x : ℕ) :
    ((L.rewinds M encodings encodingsLen bias n).map (progress encodingsLen)).count x ≤
      if x < progress encodingsLen L.settled then 0
      else if x = progress encodingsLen L.settled then L.backs else 2 := by
  induction n generalizing L with
  | zero => exact Nat.zero_le _
  | succ n ih =>
    unfold Loop.rewinds
    split
    case isFalse => exact Nat.zero_le _
    case isTrue htest =>
      have hnext : Bounded encodingsLen (L.body M encodings encodingsLen (some bias)) :=
        (h.body (some bias) htest).1
      have hrest := ih hnext
      rcases body_cases M encodings encodingsLen bias htest with
        ⟨r, hbreaks, hstanding, hr, hbody⟩ | ⟨hbreaks, ht, hbegins, hbody⟩
      · rw [hbody] at hrest ⊢
        rw [if_pos hbreaks, hstanding]
        have hplace : (L.goBack (some r)).settled = r.place := rfl
        have hsettled : L.settled = r.place := by simp [Loop.settled, hr]
        have hbacks : (L.goBack (some r)).backs + 1 = L.backs := by
          obtain ⟨place, k, own⟩ := r
          cases own <;> simp [Loop.backs, Loop.goBack, hr]
        rw [hplace] at hrest
        rw [hsettled]
        show (progress encodingsLen r.place ::
          ((L.goBack (some r)).rewinds M encodings encodingsLen bias n).map
            (progress encodingsLen)).count x ≤ _
        rw [List.count_cons]
        by_cases hx : x = progress encodingsLen r.place
        · subst hx
          simp only [lt_irrefl, if_false, if_true, beq_self_eq_true] at hrest ⊢
          omega
        · have hne : (progress encodingsLen r.place == x) = false :=
            beq_eq_false_iff_ne.mpr fun heq => hx heq.symm
          rw [hne]
          simpa [hx] using hrest
      · rw [if_neg (by rw [hbreaks]; exact Bool.false_ne_true), List.nil_append]
        refine hrest.trans ?_
        rw [hbody]
        have hle := (L.keep M encodings (some bias) (L.pick M encodings (biased bias))).backs_le
        rcases settled_keep M encodings bias h ht hbegins with hmore | ⟨hsame, hless⟩
        · split_ifs <;> omega
        · rw [hsame]
          split_ifs <;> omega

variable (M encodings) in
/-- The loop goes back to places within the audio. -/
theorem rewinds_within (bias : KeywordBias) (n : ℕ) {L : Loop S} (h : Bounded encodingsLen L) :
    ∀ p ∈ L.rewinds M encodings encodingsLen bias n, p.t < encodingsLen := by
  induction n generalizing L with
  | zero => intro p hp; cases hp
  | succ n ih =>
    intro p hp
    unfold Loop.rewinds at hp
    split at hp
    case isFalse => cases hp
    case isTrue htest =>
      rcases List.mem_append.mp hp with hp | hp
      · rcases body_cases M encodings encodingsLen bias htest with
          ⟨r, hbreaks, hstanding, hr, -⟩ | ⟨hbreaks, -⟩
        · rw [if_pos hbreaks, hstanding] at hp
          rw [List.mem_singleton.mp hp]
          exact (h.rewind r hr).2.1
        · rw [if_neg (by rw [hbreaks]; exact Bool.false_ne_true)] at hp
          cases hp
      · exact ih (h.body (some bias) htest).1 p hp

variable (M encodings) in
/-- At most twice to any one position. -/
theorem countP_rewinds_le (bias : KeywordBias) (n : ℕ) {L : Loop S} (h : Bounded encodingsLen L)
    (t emittedAtFrame : ℕ) :
    (L.rewinds M encodings encodingsLen bias n).countP
      (fun p => decide (p.t = t ∧ p.emittedAtFrame = emittedAtFrame)) ≤ 2 := by
  have hcount := count_rewinds_le M encodings bias n h (t * MAX_TOKENS_PER_STEP + emittedAtFrame)
  have hle : (L.rewinds M encodings encodingsLen bias n).countP
      (fun p => decide (p.t = t ∧ p.emittedAtFrame = emittedAtFrame)) ≤
      ((L.rewinds M encodings encodingsLen bias n).map (progress encodingsLen)).count
        (t * MAX_TOKENS_PER_STEP + emittedAtFrame) := by
    rw [List.count, List.countP_map]
    refine List.countP_mono_left fun p hp hat => ?_
    obtain ⟨rfl, rfl⟩ := of_decide_eq_true hat
    exact beq_iff_eq.mpr (if_pos (rewinds_within M encodings bias n h p hp))
  have hbacks := L.backs_le
  refine hle.trans (hcount.trans ?_)
  split_ifs <;> omega

/-! ## What is emitted, place by place -/

variable (encodingsLen) in
/-- The loop holds one token, one time and one probability for each place it emitted at; these go
on, and those before a match lie behind it. -/
structure Emits (L : Loop S) (emitted : List (Place S)) : Prop where
  tokens : L.tokens.length = emitted.length
  timestamps : L.timestamps = emitted.map fun p => p.t * FRAME_S
  confidences : L.confidences.length = emitted.length
  ordered : emitted.Pairwise fun p q => progress encodingsLen p < progress encodingsLen q
  room : ∀ p ∈ emitted, p.t < encodingsLen ∧ p.emittedAtFrame < MAX_TOKENS_PER_STEP
  behind : ∀ p ∈ emitted, progress encodingsLen p < progress encodingsLen L.here
  rewind : ∀ r, L.rewind = some r → r.nTokens ≤ emitted.length ∧
    ∀ p ∈ emitted.take r.nTokens, progress encodingsLen p < progress encodingsLen r.place

theorem Emits.goBack {L : Loop S} {emitted : List (Place S)} (h : Emits encodingsLen L emitted)
    {r : Rewind S} (hr : L.rewind = some r) :
    Emits encodingsLen (L.goBack (some r)) (emitted.take r.nTokens) where
  tokens := by
    show (L.tokens.take r.nTokens).length = _
    rw [List.length_take, List.length_take, h.tokens]
  timestamps := by
    show L.timestamps.take r.nTokens = _
    rw [h.timestamps, List.map_take]
  confidences := by
    show (L.confidences.take r.nTokens).length = _
    rw [List.length_take, List.length_take, h.confidences]
  ordered := h.ordered.sublist (List.take_sublist _ _)
  room p hp := h.room p (List.mem_of_mem_take hp)
  behind := (h.rewind r hr).2
  rewind _ hnone := by cases hnone

/-- A kept token is emitted at the place the loop is at; a blank is not. -/
theorem Emits.keep (bias : KeywordBias) {L : Loop S} {emitted : List (Place S)}
    (hbounded : Bounded encodingsLen L) (h : Emits encodingsLen L emitted)
    (ht : L.here.t < encodingsLen) {p : Loop.Pick S} (hbegins : L.Begins p.rewind) :
    ∃ emitted', Emits encodingsLen (L.keep M encodings (some bias) p) emitted' := by
  obtain ⟨hhere, hrewind⟩ := keep_cases M encodings (some bias) L p
  have hmore := (progress_take M encodings (matcher (some bias)) p.token ht hbounded.here).1
  rw [← hhere] at hmore
  -- what a rewind that stands after the turn says of the places before it
  have hstands : ∀ r, (L.keep M encodings (some bias) p).rewind = some r →
      r.nTokens ≤ emitted.length ∧
        ∀ q ∈ emitted.take r.nTokens, progress encodingsLen q < progress encodingsLen r.place := by
    intro r hr
    have hpicked : p.rewind = some r := by
      rcases hrewind with hnone | hsame
      · rw [hnone] at hr
        cases hr
      · exact hsame.symm.trans hr
    rcases hbegins with hold | ⟨-, -, own, hnew, -⟩
    · exact h.rewind r (hold.symm.trans hpicked)
    · obtain rfl := Option.some.inj (hnew.symm.trans hpicked)
      refine ⟨h.tokens.le, fun q hq => h.behind q (List.mem_of_mem_take hq)⟩
  by_cases hblank : p.token = M.blankIdx
  · have hkeep : (L.keep M encodings (some bias) p).tokens = L.tokens ∧
        (L.keep M encodings (some bias) p).timestamps = L.timestamps ∧
        (L.keep M encodings (some bias) p).confidences = L.confidences := by
      unfold Loop.keep
      dsimp only
      rw [if_pos hblank]
      exact ⟨rfl, rfl, rfl⟩
    exact ⟨emitted, {
      tokens := hkeep.1 ▸ h.tokens
      timestamps := hkeep.2.1 ▸ h.timestamps
      confidences := hkeep.2.2 ▸ h.confidences
      ordered := h.ordered
      room := h.room
      behind := fun q hq => (h.behind q hq).trans hmore
      rewind := hstands }⟩
  · have hkeep : (L.keep M encodings (some bias) p).tokens = L.tokens ++ [M.piece p.token] ∧
        (L.keep M encodings (some bias) p).timestamps = L.timestamps ++ [L.here.t * FRAME_S] ∧
        (L.keep M encodings (some bias) p).confidences =
          L.confidences ++ [M.probability (M.vocabLogits encodings L.here) p.token] := by
      unfold Loop.keep
      dsimp only
      rw [if_neg hblank]
      exact ⟨rfl, rfl, rfl⟩
    refine ⟨emitted ++ [L.here], {
      tokens := ?_, timestamps := ?_, confidences := ?_, ordered := ?_, room := ?_, behind := ?_,
      rewind := ?_ }⟩
    · rw [hkeep.1, List.length_append, List.length_append, h.tokens]
      rfl
    · rw [hkeep.2.1, List.map_append, h.timestamps]
      rfl
    · rw [hkeep.2.2, List.length_append, List.length_append, h.confidences]
      rfl
    · refine List.pairwise_append.mpr ⟨h.ordered, List.pairwise_singleton _ _, ?_⟩
      intro q hq q' hq'
      rw [List.mem_singleton.mp hq']
      exact h.behind q hq
    · intro q hq
      rcases List.mem_append.mp hq with hq | hq
      · exact h.room q hq
      · rw [List.mem_singleton.mp hq]
        exact ⟨ht, hbounded.here⟩
    · intro q hq
      rcases List.mem_append.mp hq with hq | hq
      · exact (h.behind q hq).trans hmore
      · rw [List.mem_singleton.mp hq]
        exact hmore
    · intro r hr
      obtain ⟨hle, hbefore⟩ := hstands r hr
      refine ⟨hle.trans (by simp), ?_⟩
      rw [List.take_append_of_le_length hle]
      exact hbefore

/-- **One turn**, and the places it leaves emitted. -/
theorem Emits.body (bias : KeywordBias) {L : Loop S} {emitted : List (Place S)}
    (hbounded : Bounded encodingsLen L) (h : Emits encodingsLen L emitted)
    (htest : L.test encodingsLen = true) :
    ∃ emitted', Emits encodingsLen (L.body M encodings encodingsLen (some bias)) emitted' := by
  rcases body_cases M encodings encodingsLen bias htest with
    ⟨r, -, -, hr, hbody⟩ | ⟨-, ht, hbegins, hbody⟩
  · rw [hbody]
    exact ⟨_, h.goBack hr⟩
  · rw [hbody]
    exact h.keep bias hbounded ht hbegins

theorem progress_eq {p : Place S} (ht : p.t < encodingsLen) :
    progress encodingsLen p = p.t * MAX_TOKENS_PER_STEP + p.emittedAtFrame := if_pos ht

/-- The places go on in time. -/
theorem Emits.timestamps_sorted {L : Loop S} {emitted : List (Place S)}
    (h : Emits encodingsLen L emitted) : L.timestamps.Pairwise (· ≤ ·) := by
  rw [h.timestamps, List.pairwise_map]
  refine h.ordered.imp_of_mem fun {p q} hp hq hlt => ?_
  obtain ⟨hpt, hproom⟩ := h.room p hp
  obtain ⟨hqt, hqroom⟩ := h.room q hq
  rw [progress_eq hpt, progress_eq hqt] at hlt
  have hle : p.t ≤ q.t := by
    unfold MAX_TOKENS_PER_STEP at *
    omega
  exact mul_le_mul_of_nonneg_right (by exact_mod_cast hle) (by unfold FRAME_S; norm_num)

/-- No frame holds more tokens than it has room for. -/
theorem Emits.count_le {L : Loop S} {emitted : List (Place S)} (h : Emits encodingsLen L emitted)
    (t : ℕ) : L.timestamps.count (t * FRAME_S) ≤ MAX_TOKENS_PER_STEP := by
  have hcount : L.timestamps.count (t * FRAME_S) =
      (emitted.filter fun p => decide (p.t = t)).length := by
    rw [h.timestamps, List.count, List.countP_map, List.countP_eq_length_filter]
    congr 1
    refine List.filter_congr fun p _ => ?_
    have hiff : (p.t : ℚ) * FRAME_S = t * FRAME_S ↔ p.t = t := by
      rw [mul_left_inj' (by unfold FRAME_S; norm_num), Nat.cast_inj]
    show ((p.t : ℚ) * FRAME_S == t * FRAME_S) = decide (p.t = t)
    rw [beq_eq_decide]
    exact decide_eq_decide.mpr hiff
  rw [hcount, ← List.length_map Place.emittedAtFrame]
  -- at one frame the counter tells the places apart
  have hnodup : ((emitted.filter fun p => decide (p.t = t)).map Place.emittedAtFrame).Nodup := by
    refine List.pairwise_map.mpr ?_
    refine (h.ordered.filter _).imp_of_mem fun {p q} hp hq hlt => ?_
    obtain ⟨hp, hpt⟩ := List.mem_filter.mp hp
    obtain ⟨hq, hqt⟩ := List.mem_filter.mp hq
    rw [progress_eq (h.room p hp).1, progress_eq (h.room q hq).1, of_decide_eq_true hpt,
      of_decide_eq_true hqt] at hlt
    omega
  have hsubset : ((emitted.filter fun p => decide (p.t = t)).map Place.emittedAtFrame) ⊆
      List.range MAX_TOKENS_PER_STEP := by
    intro e he
    obtain ⟨p, hp, rfl⟩ := List.mem_map.mp he
    exact List.mem_range.mpr (h.room p (List.mem_filter.mp hp).1).2
  have := (hnodup.subperm hsubset).length_le
  rwa [List.length_range] at this

/-! ## The result -/

variable (M encodings encodingsLen)

/-- **The biased decode loop ends**, whatever the network, the audio and the automaton. However many
turns it takes, it goes back to any one position at most twice, its assertion holds, no frame has
more than `MAX_TOKENS_PER_STEP` tokens, and tokens, timestamps and confidences keep equal lengths,
the timestamps in order. -/
theorem decode_settles (bias : KeywordBias) :
    (∃ held fuel, decode M encodings encodingsLen (some bias) fuel = some held) ∧
    (∀ n t emittedAtFrame,
      (({ here := M.start } : Loop S).rewinds M encodings encodingsLen bias n).countP
        (fun p => decide (p.t = t ∧ p.emittedAtFrame = emittedAtFrame)) ≤ 2) ∧
    ∀ L, While.Turns (Loop.test encodingsLen) (Loop.body M encodings encodingsLen (some bias))
        { here := M.start } L →
      (L.test encodingsLen = true → L.breaks M encodings encodingsLen (biased bias) = true →
        (L.standing M encodings encodingsLen (biased bias)).isSome = true) ∧
      (∀ t : ℕ, L.timestamps.count (t * FRAME_S) ≤ MAX_TOKENS_PER_STEP) ∧
      L.tokens.length = L.timestamps.length ∧ L.confidences.length = L.timestamps.length ∧
      L.timestamps.Pairwise (· ≤ ·) := by
  have hstart : Bounded encodingsLen ({ here := M.start } : Loop S) :=
    ⟨show 0 < MAX_TOKENS_PER_STEP by decide, fun r hr => by cases hr⟩
  have hnone : Emits encodingsLen ({ here := M.start } : Loop S) [] :=
    { tokens := rfl, timestamps := rfl, confidences := rfl, ordered := List.Pairwise.nil,
      room := fun _ h => (by cases h), behind := fun _ h => (by cases h),
      rewind := fun _ h => (by cases h) }
  refine ⟨?_, ?_, ?_⟩
  · obtain ⟨held, ⟨fuel, hfuel⟩, -⟩ := While.total
      (Loop.test encodingsLen) (Loop.body M encodings encodingsLen (some bias)) wellFounded_lt
      (I := Bounded encodingsLen) (Loop.left encodingsLen)
      (fun L hL ht => hL.body (some bias) ht) { here := M.start } hstart
    exact ⟨held, fuel, hfuel⟩
  · exact fun n => countP_rewinds_le M encodings bias n hstart
  · intro L hL
    have hinv : Bounded encodingsLen L ∧ ∃ emitted, Emits encodingsLen L emitted := by
      induction hL with
      | refl => exact ⟨hstart, [], hnone⟩
      | tail _ hstep ih =>
        obtain ⟨htest, rfl⟩ := hstep
        obtain ⟨hbounded, emitted, hemits⟩ := ih
        exact ⟨(hbounded.body (some bias) htest).1, hemits.body bias hbounded htest⟩
    obtain ⟨hbounded, emitted, hemits⟩ := hinv
    refine ⟨?_, hemits.count_le, ?_, ?_, hemits.timestamps_sorted⟩
    · intro htest hbreaks
      rcases body_cases M encodings encodingsLen bias htest with
        ⟨r, -, hstanding, -⟩ | ⟨hkeeps, -⟩
      · rw [hstanding]
        rfl
      · rw [hbreaks] at hkeeps
        cases hkeeps
    · rw [hemits.tokens, hemits.timestamps, List.length_map]
    · rw [hemits.confidences, hemits.timestamps, List.length_map]

end Decode

end Parakeet

end Myna

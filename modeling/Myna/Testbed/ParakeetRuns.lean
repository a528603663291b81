import Mathlib.Data.Prod.Lex
import Myna.Testbed.KeywordMatch
import Myna.Testbed.ParakeetDecode

/-!
# Myna — what the keyword bias costs

A finished decode is a chain of turns at each of which the model's own choice was taken, or of
matches that completed. Every match that came to nothing has left the loop where it began.

* **`Provisional`** — a match in progress, from the place of its first token on;
* **`Trail`** — a chain of own choices and completed matches;
* **`Inv.body`** — one turn, whatever chain the loop keeps;
* **`Bounded.body`** — one turn, and the measure that it lowers;
* **`bias_costs_nothing`** — the result.
-/

namespace Myna

namespace KeywordBias

/-! ## What the automaton offers -/

section Automaton

variable {U : Unicode} {upper : Char → Text} {keywords vocab : List Text} {blank : ℕ}
  {boostPerChar : ℚ} {bias : KeywordBias} {P : Text → Prop}

/-- The choice is the token, or one that is offered. -/
theorem rerank_cases (bias : KeywordBias) (s : ℕ) (logits : List ℚ) (token : ℕ) (rival : Bool) :
    bias.rerank s logits token rival = token ∨
      bias.rerank s logits token rival ∈ (bias.offer s).map Prod.fst := by
  unfold rerank
  dsimp only
  split
  · cases hbest : (bias.offer s)[argmax ((bias.offer s).map (score logits token rival))]? with
    | none => exact .inl rfl
    | some offered => exact .inr (List.mem_map_of_mem (List.mem_of_getElem? hbest))
  · exact .inl rfl

theorem child_of_extended {s t : ℕ} (h : (bias.advance s t).2 = true) :
    bias.child s t = some (bias.advance s t).1 := by
  unfold advance at h ⊢
  cases hc : bias.child s t with
  | some target => rfl
  | none =>
    simp only [hc] at h
    cases hf : (bias.fallbacks s).findSome? fun fallback => bias.child fallback t with
    | some target =>
      rw [hf] at h
      cases h
    | none =>
      rw [hf] at h
      cases h

/-- An offered token leads on from the match in progress, or from one of its fallbacks. -/
theorem child_of_offered {s t : ℕ} (h : t ∈ (bias.offer s).map Prod.fst) :
    ∃ state ∈ s :: bias.fallbacks s, bias.child state t = some (bias.advance s t).1 := by
  obtain ⟨state, hstate, target, htarget⟩ := (Automaton.mem_offer_iff bias).mp h
  rw [Automaton.advance_eq]
  cases hfind : (s :: bias.fallbacks s).findSome? fun state => bias.child state t with
  | none =>
    have := List.findSome?_eq_none_iff.mp hfind state hstate
    rw [htarget] at this
    cases this
  | some first =>
    obtain ⟨state', hstate', hchild⟩ := List.exists_of_findSome?_eq_some hfind
    exact ⟨state', hstate', hchild⟩

namespace Automaton

/-- A token that leads anywhere is a piece: it is not blank, and its text is added. -/
theorem piece_of_child (h : Automaton P vocab blank bias) {s t target : ℕ}
    (hchild : bias.child s t = some target) :
    t ≠ blank ∧ ∃ p, bias.prefixes[s]? = some p ∧
      bias.prefixes[target]? = some (p ++ word vocab t) := by
  obtain ⟨p, w, hp, htarget, -, -, hget⟩ := (h.child_iff s t target).mp hchild
  obtain ⟨hw, hspells⟩ := spells_of_get? hget
  have hword : word vocab t = w := word_of_get? hget
  exact ⟨hspells.2.1, p, hp, by rw [hword]; exact htarget⟩

end Automaton

/-! ## The complete states -/

/-- The states of a builder are still its states. -/
def Builder.Grows (b b' : Builder) : Prop :=
  ∀ (s : ℕ) p, b.prefixes[s]? = some p → b'.prefixes[s]? = some p

theorem Builder.grows_stateOf (b : Builder) (p : Text) :
    b.Grows (b.stateOf p).1 ∧ (b.stateOf p).1.complete = b.complete := by
  unfold Builder.stateOf
  cases b.index p with
  | some state => exact ⟨fun _ _ h => h, rfl⟩
  | none =>
    refine ⟨fun s q hq => ?_, rfl⟩
    show (b.prefixes ++ [p])[s]? = some q
    rw [List.getElem?_append_left (List.getElem?_eq_some_iff.mp hq).1]
    exact hq

theorem Builder.grows_addSegments (spelling : Text) : ∀ (segs : List (ℕ × ℕ × ℕ)) (b : Builder),
    b.Grows (segs.foldl (Builder.addSegment spelling) b) ∧
      (segs.foldl (Builder.addSegment spelling) b).complete = b.complete
  | [], b => ⟨fun _ _ h => h, rfl⟩
  | e :: segs, b => by
    obtain ⟨htarget, hsame⟩ := b.grows_stateOf (spelling.take e.2.1)
    obtain ⟨hsource, hsame'⟩ :=
      (b.stateOf (spelling.take e.2.1)).1.grows_stateOf (spelling.take e.1)
    obtain ⟨hrest, hsame''⟩ := grows_addSegments spelling segs
      (Builder.addSegment spelling b e)
    refine ⟨fun s p hp => hrest s p ?_, hsame''.trans (hsame'.trans hsame)⟩
    exact hsource s p (htarget s p hp)

/-- **A complete state is that of a spelling.** Induction on the spellings added. -/
theorem Builder.complete_spellings {pieces : Dict Text ℕ} {all : List Text} :
    ∀ (spellings : List Text) (b : Builder), (∀ spelling ∈ spellings, spelling ∈ all) →
      (∀ s ∈ b.complete, ∃ spelling ∈ all, b.prefixes[s]? = some spelling) →
      ∀ s ∈ (spellings.foldl (Builder.addSpelling pieces) b).complete, ∃ spelling ∈ all,
        (spellings.foldl (Builder.addSpelling pieces) b).prefixes[s]? = some spelling
  | [], _, _, h => h
  | spelling :: spellings, b, hall, h => by
    refine complete_spellings spellings _ (fun x hx => hall x (List.mem_cons_of_mem _ hx)) ?_
    obtain ⟨hgrows, hsame⟩ := grows_addSegments spelling (segments spelling pieces) b
    intro s hs
    unfold Builder.addSpelling at hs ⊢
    generalize (segments spelling pieces).foldl (Builder.addSegment spelling) b = b' at *
    have hold : ∀ s ∈ b'.complete, ∃ spelling ∈ all, b'.prefixes[s]? = some spelling := by
      intro s hs
      rw [hsame] at hs
      obtain ⟨x, hx, hp⟩ := h s hs
      exact ⟨x, hx, hgrows s x hp⟩
    dsimp only at hs ⊢
    split at hs
    · next hempty =>
      rw [if_pos hempty]
      exact hold s hs
    · next hempty =>
      rw [if_neg hempty]
      rcases List.mem_append.mp hs with hs | hs
      · -- the state of the spelling itself
        obtain ⟨hlt, hget, -⟩ := List.idxOf?_eq_some_iff.mp (Option.mem_toList.mp hs)
        refine ⟨spelling, hall spelling (by simp), ?_⟩
        show b'.prefixes[s]? = some spelling
        rw [List.getElem?_eq_getElem hlt, hget]
      · exact hold s hs

theorem spelling_of_complete
    (h : keywordBias U upper keywords vocab blank boostPerChar = some bias) {s : ℕ}
    (hs : s ∈ bias.complete) :
    ∃ spelling ∈ spellings U upper keywords, bias.prefixes[s]? = some spelling := by
  simp only [keywordBias] at h
  split at h
  · cases h
  · obtain rfl := Option.some.inj h
    exact Builder.complete_spellings _ {} (fun _ hx => hx) (by simp) s hs

end Automaton

end KeywordBias

namespace Parakeet

open KeywordBias (ROOT Automaton)

section Decode

variable {Frame S : Type} (M : Model Frame S) (encodings : ℕ → Frame) (encodingsLen : ℕ)

/-! ## Chains of turns -/

/-- What a turn that takes the token emits, with the place it is emitted at. -/
def Model.emission (token : ℕ) (p : Place S) : List (ℕ × Place S) :=
  if token = M.blankIdx then [] else [(token, p)]

/-- Own choices, from the start to the place. -/
inductive Plain (m : Matcher) : List (ℕ × Place S) → Place S → Prop
  | start : Plain m [] M.start
  | own {trail p} (h : Plain m trail p) (ht : p.t < encodingsLen) :
      Plain m (trail ++ M.emission (M.own encodings p) p)
        (M.take encodings m p (M.own encodings p))

/-- A match in progress: its first token leads from the place, or from one of its fallbacks, to a
prefix of a keyword, and each further one extends it. -/
inductive Provisional (bias : KeywordBias) : Place S → List (ℕ × Place S) → Place S → Prop
  | starts {p token} (ht : p.t < encodingsLen) (hne : token ≠ M.blankIdx)
      (hchild : ∃ state ∈ p.state :: bias.fallbacks p.state,
        bias.child state token = some (bias.advance p.state token).1) :
      Provisional bias p [(token, p)] (M.take encodings (biased bias) p token)
  | waits {p block q} (h : Provisional bias p block q) (ht : q.t < encodingsLen)
      (hown : M.own encodings q = M.blankIdx) :
      Provisional bias p block (M.take encodings (biased bias) q M.blankIdx)
  | goesOn {p block q token} (h : Provisional bias p block q) (ht : q.t < encodingsLen)
      (hne : token ≠ M.blankIdx)
      (hchild : bias.child q.state token = some (bias.advance q.state token).1) :
      Provisional bias p (block ++ [(token, q)]) (M.take encodings (biased bias) q token)

/-- Own choices and completed matches, from the start to the place. -/
inductive Trail (bias : KeywordBias) : List (ℕ × Place S) → Place S → Prop
  | start : Trail bias [] M.start
  | own {trail p} (h : Trail bias trail p) (ht : p.t < encodingsLen) :
      Trail bias (trail ++ M.emission (M.own encodings p) p)
        (M.take encodings (biased bias) p (M.own encodings p))
  | matched {trail p block q} (h : Trail bias trail p)
      (hblock : Provisional M encodings encodingsLen bias p block q)
      (hcomplete : q.state ∈ bias.complete) : Trail bias (trail ++ block) q

/-- A biased loop holds the tokens of the chain, their times and their probabilities. -/
structure Held (L : Loop S) (trail : List (ℕ × Place S)) : Prop where
  tokens : L.tokens = trail.map fun e => M.piece e.1
  timestamps : L.timestamps = trail.map fun e => e.2.t * FRAME_S
  confidences : L.confidences =
    trail.map fun e => M.probability (M.vocabLogits encodings e.2) e.1

/-- What holds at the head of the loop, for the chains in `K`: the loop stands at the end of one, or
in a match that began there. -/
inductive Inv (bias : KeywordBias) (K : List (ℕ × Place S) → Place S → Prop) (L : Loop S) : Prop
  | free (trail : List (ℕ × Place S)) (hrewind : L.rewind = none)
      (held : Held M encodings L trail) (hchain : K trail L.here)
  | provisional (r : Rewind S) (trail block : List (ℕ × Place S)) (hrewind : L.rewind = some r)
      (hlength : trail.length = r.nTokens)
      (held : Held M encodings L (trail ++ block)) (hchain : K trail r.place)
      (hblock : Provisional M encodings encodingsLen bias r.place block L.here)
      (hunbiased : L.unbiased = false)

variable {M encodings encodingsLen}

theorem Held.concat {L : Loop S} {trail : List (ℕ × Place S)}
    (h : Held M encodings L trail) (token : ℕ) {L' : Loop S}
    (htokens : L'.tokens = L.tokens ++ [M.piece token])
    (htimestamps : L'.timestamps = L.timestamps ++ [L.here.t * FRAME_S])
    (hconfidences : L'.confidences = L.confidences ++
      [M.probability (M.vocabLogits encodings L.here) token]) :
    Held M encodings L' (trail ++ [(token, L.here)]) where
  tokens := by rw [htokens, h.tokens, List.map_append]; rfl
  timestamps := by rw [htimestamps, h.timestamps, List.map_append]; rfl
  confidences := by rw [hconfidences, h.confidences, List.map_append]; rfl

/-- Going back leaves what stood before the match. -/
theorem Held.goBack {L : Loop S} {trail block : List (ℕ × Place S)}
    {r : Rewind S} (h : Held M encodings L (trail ++ block))
    (hlength : trail.length = r.nTokens) :
    Held M encodings (L.goBack (some r)) trail where
  tokens := by
    show L.tokens.take r.nTokens = _
    rw [h.tokens, List.map_append, ← hlength, List.take_left' (by simp)]
  timestamps := by
    show L.timestamps.take r.nTokens = _
    rw [h.timestamps, List.map_append, ← hlength, List.take_left' (by simp)]
  confidences := by
    show L.confidences.take r.nTokens = _
    rw [h.confidences, List.map_append, ← hlength, List.take_left' (by simp)]

/-! ## One turn -/

section Turn

variable {bias : KeywordBias} {L : Loop S}

variable (M encodings) in
/-- **What a turn picks**: the model's own token with no match begun, a fresh one, or another token
within a match. -/
theorem pick_cases (m : Matcher) (L : Loop S) :
    L.pick M encodings m = ⟨M.own encodings L.here, L.rewind, false⟩ ∨
    (∃ chosen starts, L.pick M encodings m
      = ⟨chosen, some ⟨L.here, L.tokens.length, starts⟩, true⟩ ∧
      M.own encodings L.here ≠ M.blankIdx ∧ L.unbiased = false ∧ L.rewind = none ∧
      chosen = m.rerank L.here.state (M.vocabLogits encodings L.here) (M.own encodings L.here)
        L.rival ∧
      (chosen = M.own encodings L.here → (m.advance L.here.state chosen).2 = true) ∧
      (starts = true → L.rival = false)) ∨
    ∃ chosen, L.pick M encodings m = ⟨chosen, L.rewind, false⟩ ∧
      M.own encodings L.here ≠ M.blankIdx ∧ L.rewind.isSome ∧ chosen ≠ M.own encodings L.here ∧
      chosen = m.rerank L.here.state (M.vocabLogits encodings L.here) (M.own encodings L.here)
        L.rival := by
  unfold Loop.pick
  dsimp only
  split
  · next hbiased =>
    generalize hchosen : m.rerank L.here.state (M.vocabLogits encodings L.here)
      (M.own encodings L.here) L.rival = chosen
    split
    · next hfresh =>
      refine .inr (.inl ⟨chosen, _, rfl, hbiased.1,
        hbiased.2, by simpa using hfresh.2, rfl, ?_, ?_⟩)
      · intro hsame
        have := hfresh.1.resolve_left (not_not.mpr hsame)
        simp only [Bool.and_eq_true] at this
        rw [hsame]
        exact this.2
      · intro hstarts
        simp only [Bool.and_eq_true, Bool.not_eq_true'] at hstarts
        exact hstarts.1.1.2
    · next hfresh =>
      by_cases hsame : chosen = M.own encodings L.here
      · exact .inl (by rw [hsame])
      · refine .inr (.inr ⟨chosen, rfl, hbiased.1, ?_, hsame, rfl⟩)
        cases hr : L.rewind with
        | some r => rfl
        | none => exact absurd ⟨.inl hsame, by simp [hr]⟩ hfresh
  · exact .inl rfl

theorem take_blank_state (m : Matcher) (p : Place S) :
    (M.take encodings m p M.blankIdx).state = p.state := by
  unfold Model.take Model.moveOn
  rw [if_pos rfl]
  split
  · rfl
  · split <;> rfl

theorem take_state (m : Matcher) (p : Place S) {token : ℕ} (hne : token ≠ M.blankIdx) :
    (M.take encodings m p token).state = (m.advance p.state token).1 := by
  unfold Model.take Model.moveOn
  rw [if_neg hne]
  split
  · rfl
  · split <;> rfl

theorem complete_iff {state : ℕ} :
    (biased bias).complete state = true ↔ state ∈ bias.complete :=
  List.contains_iff_mem

/-- Only pieces are offered, so a re-ranked choice is not blank. -/
theorem rerank_ne_blank {P : Text → Prop} (h : Automaton P M.vocab M.blankIdx bias)
    {s token : ℕ} {logits : List ℚ} {rival : Bool} (hne : token ≠ M.blankIdx) :
    bias.rerank s logits token rival ≠ M.blankIdx := by
  rcases bias.rerank_cases s logits token rival with hsame | hoffered
  · rwa [hsame]
  · obtain ⟨state, -, hchild⟩ := KeywordBias.child_of_offered hoffered
    exact (h.piece_of_child hchild).1

/-- The end of a turn within a match: it goes on, or the keyword is complete. -/
theorem Inv.kept {K : List (ℕ × Place S) → Place S → Prop} {p : Loop.Pick S} {r : Rewind S}
    {trail block : List (ℕ × Place S)} (hne : p.token ≠ M.blankIdx) (hrewind : p.rewind = some r)
    (hlength : trail.length = r.nTokens) (held : Held M encodings L (trail ++ block))
    (hchain : K trail r.place)
    (hblock : Provisional M encodings encodingsLen bias r.place (block ++ [(p.token, L.here)])
      (M.take encodings (biased bias) L.here p.token))
    (hmatched : (bias.advance L.here.state p.token).1 ∈ bias.complete →
      K (trail ++ (block ++ [(p.token, L.here)]))
        (M.take encodings (biased bias) L.here p.token)) :
    Inv M encodings encodingsLen bias K (L.keep M encodings (some bias) p) := by
  have held' : Held M encodings (L.keep M encodings (some bias) p)
      (trail ++ (block ++ [(p.token, L.here)])) := by
    rw [← List.append_assoc]
    apply held.concat <;> simp [Loop.keep, hne]
  by_cases hcomplete : (bias.advance L.here.state p.token).1 ∈ bias.complete
  · refine .free _ ?_ held' ?_
    · simp only [Loop.keep, if_neg hne]
      exact if_pos (complete_iff.mpr hcomplete)
    · simp only [Loop.keep, if_neg hne]
      exact hmatched hcomplete
  · refine .provisional r trail (block ++ [(p.token, L.here)]) ?_ hlength held' hchain ?_ ?_
    · simp only [Loop.keep, if_neg hne]
      exact (if_neg fun h => hcomplete (complete_iff.mp h)).trans hrewind
    · simp only [Loop.keep, if_neg hne]
      exact hblock
    · simp only [Loop.keep, if_neg hne]

/-- **One turn.** The loop keeps its chain, as own choices extend chains of its kind and, in a turn
that completes a match, completed matches do. -/
theorem Inv.body {P : Text → Prop} (hauto : Automaton P M.vocab M.blankIdx bias)
    {K : List (ℕ × Place S) → Place S → Prop}
    (hown : ∀ {trail p}, K trail p → p.t < encodingsLen →
      K (trail ++ M.emission (M.own encodings p) p)
        (M.take encodings (biased bias) p (M.own encodings p)))
    (hmatched : L.completes M encodings encodingsLen (biased bias) →
      ∀ {trail p block q}, K trail p →
      Provisional M encodings encodingsLen bias p block q → q.state ∈ bias.complete →
      K (trail ++ block) q)
    (htest : L.test encodingsLen = true) (h : Inv M encodings encodingsLen bias K L) :
    Inv M encodings encodingsLen bias K (L.body M encodings encodingsLen (some bias)) := by
  have hback : ∀ r, L.rewind = some r →
    Inv M encodings encodingsLen bias K (L.goBack (some r)) := by
    intro r hr
    cases h with
    | free trail hrewind => rw [hrewind] at hr; cases hr
    | provisional r' trail block hrewind hlength held hchain =>
      obtain rfl := Option.some.inj (hrewind.symm.trans hr)
      exact .free trail rfl (held.goBack hlength) hchain
  unfold Loop.body
  split
  case isFalse ht =>
    -- the audio ended inside a match
    have hsome : L.rewind.isSome = true := by simpa [Loop.test, ht] using htest
    obtain ⟨r, hr⟩ := Option.isSome_iff_exists.mp hsome
    rw [hr]
    exact hback r hr
  case isTrue ht =>
    have hcompletes : ∀ p, L.pick M encodings (biased bias) = p →
        L.broken M (biased bias) p = false → p.token ≠ M.blankIdx →
        (bias.advance L.here.state p.token).1 ∈ bias.complete →
        L.completes M encodings encodingsLen (biased bias) := by
      intro p hp hkept hne hc
      subst hp
      exact ⟨ht, hkept, hne, complete_iff.mpr hc⟩
    have hextended : ∀ chosen, chosen ≠ M.blankIdx → L.rewind.isSome = true →
        L.broken M (biased bias) ⟨chosen, L.rewind, false⟩ = false →
        bias.child L.here.state chosen = some (bias.advance L.here.state chosen).1 := by
      intro chosen hne hsome hkept
      refine KeywordBias.child_of_extended ?_
      simpa [Loop.broken, hne, hsome, biased] using hkept
    -- within a match, a token that does not break it extends it
    have hwithin : ∀ chosen, L.pick M encodings (biased bias) = ⟨chosen, L.rewind, false⟩ →
        chosen ≠ M.blankIdx → L.broken M (biased bias) ⟨chosen, L.rewind, false⟩ = false →
        L.rewind.isSome = true → Inv M encodings encodingsLen bias K
          (L.keep M encodings (some bias) ⟨chosen, L.rewind, false⟩) := by
      intro chosen hpick hne hkept hsome
      cases h with
      | free trail hrewind => rw [hrewind] at hsome; cases hsome
      | provisional r trail block hrewind hlength held hchain hblock =>
        have hblock' := hblock.goesOn ht hne (hextended chosen hne hsome hkept)
        refine Inv.kept hne hrewind hlength held hchain hblock' fun hc => ?_
        refine hmatched (hcompletes _ hpick hkept hne hc) hchain hblock' ?_
        rw [take_state _ _ hne]
        exact hc
    show Inv M encodings encodingsLen bias K
      (if L.broken M (biased bias) (L.pick M encodings (biased bias)) then
        L.goBack (L.pick M encodings (biased bias)).rewind
      else L.keep M encodings (some bias) (L.pick M encodings (biased bias)))
    rcases pick_cases M encodings (biased bias) L with
      hpick | ⟨chosen, starts, hpick, hne, hunbiased, hrewind, hchosen, hsame, -⟩ |
        ⟨chosen, hpick, hne, hsome, -, hchosen⟩
    · rw [hpick]
      split
      · next hbroken =>
        have hsome : L.rewind.isSome = true := by
          simp only [Loop.broken, Bool.and_eq_true] at hbroken
          exact hbroken.1.2
        obtain ⟨r, hr⟩ := Option.isSome_iff_exists.mp hsome
        rw [hr]
        exact hback r hr
      · next hkept =>
        by_cases hblank : M.own encodings L.here = M.blankIdx
        · have hkeep : L.keep M encodings (some bias) ⟨M.own encodings L.here, L.rewind, false⟩ =
              { L with
                here := M.take encodings (biased bias) L.here M.blankIdx
                unbiased := false
                rival := false } := by
            simp [Loop.keep, hblank, matcher]
          rw [hkeep]
          cases h with
          | free trail hrewind held hchain =>
            refine .free trail hrewind ⟨held.tokens, held.timestamps, held.confidences⟩ ?_
            simpa [Model.emission, hblank] using hown hchain ht
          | provisional r trail block hrewind hlength held hchain hblock =>
            exact .provisional r trail block hrewind hlength
              ⟨held.tokens, held.timestamps, held.confidences⟩ hchain (hblock.waits ht hblank) rfl
        · cases hr : L.rewind with
          | some r =>
            rw [← hr]
            exact hwithin _ hpick hblank (by simpa using hkept) (by simp [hr])
          | none =>
            cases h with
            | provisional r' _ _ hrewind => rw [hr] at hrewind; cases hrewind
            | free trail hrewind held hchain =>
              refine .free (trail ++ [(M.own encodings L.here, L.here)]) ?_ ?_ ?_
              · simp [Loop.keep, hblank]
              · apply held.concat <;> simp [Loop.keep, hblank]
              · simpa [Loop.keep, Model.emission, hblank, matcher] using hown hchain ht
    · -- a match begins
      rw [hpick]
      have hne' : chosen ≠ M.blankIdx := by
        rw [hchosen]
        exact rerank_ne_blank hauto hne
      have hkept : L.broken M (biased bias)
          ⟨chosen, some ⟨L.here, L.tokens.length, starts⟩, true⟩ = false := by
        simp [Loop.broken]
      rw [if_neg (by simp [hkept])]
      have hchild : ∃ state ∈ L.here.state :: bias.fallbacks L.here.state,
          bias.child state chosen = some (bias.advance L.here.state chosen).1 := by
        rcases bias.rerank_cases L.here.state (M.vocabLogits encodings L.here)
          (M.own encodings L.here) L.rival with hown' | hoffered
        · exact ⟨_, List.mem_cons_self,
            KeywordBias.child_of_extended (hsame (hchosen.trans hown'))⟩
        · refine KeywordBias.child_of_offered ?_
          rw [hchosen]
          exact hoffered
      have hblock : Provisional M encodings encodingsLen bias L.here ([] ++ [(chosen, L.here)])
          (M.take encodings (biased bias) L.here chosen) := .starts ht hne' hchild
      cases h with
      | provisional r' _ _ hrewind' => rw [hrewind] at hrewind'; cases hrewind'
      | free trail _ held hchain =>
        have hlength : trail.length = L.tokens.length := by simp [held.tokens]
        refine Inv.kept hne' rfl hlength (by simpa using held) hchain hblock fun hc => ?_
        refine hmatched (hcompletes _ hpick hkept hne' hc) hchain hblock ?_
        rw [take_state _ _ hne']
        exact hc
    · -- another token within the match
      rw [hpick]
      have hne' : chosen ≠ M.blankIdx := by
        rw [hchosen]
        exact rerank_ne_blank hauto hne
      split
      · obtain ⟨r, hr⟩ := Option.isSome_iff_exists.mp hsome
        rw [hr]
        exact hback r hr
      · next hkept => exact hwithin chosen hpick hne' (by simpa using hkept) hsome

end Turn

/-! ## Progress -/

variable (M encodings encodingsLen) in
/-- How far a place is: a frame has room for `MAX_TOKENS_PER_STEP` tokens. -/
def progress (p : Place S) : ℕ :=
  if p.t < encodingsLen then p.t * MAX_TOKENS_PER_STEP + p.emittedAtFrame
  else encodingsLen * MAX_TOKENS_PER_STEP

theorem progress_lt {p : Place S} (ht : p.t < encodingsLen)
    (hroom : p.emittedAtFrame < MAX_TOKENS_PER_STEP) :
    progress encodingsLen p < encodingsLen * MAX_TOKENS_PER_STEP := by
  unfold progress MAX_TOKENS_PER_STEP at *
  rw [if_pos ht]
  omega

variable (M encodings) in
/-- Every token taken is progress, and leaves room at its frame. -/
theorem progress_take (m : Matcher) {p : Place S} (token : ℕ) (ht : p.t < encodingsLen)
    (hroom : p.emittedAtFrame < MAX_TOKENS_PER_STEP) :
    progress encodingsLen p < progress encodingsLen (M.take encodings m p token) ∧
      (M.take encodings m p token).emittedAtFrame < MAX_TOKENS_PER_STEP := by
  unfold Model.take Model.moveOn Model.adopt progress MAX_TOKENS_PER_STEP at *
  rw [if_pos ht]
  dsimp only
  generalize argmax (M.durLogits encodings p) = duration
  split
  · next hblank =>
    split
    · dsimp only
      split <;> omega
    · rw [if_pos (Or.inl hblank : token = M.blankIdx ∨ p.emittedAtFrame = 10)]
      dsimp only
      split <;> omega
  · next hne =>
    split
    · dsimp only
      split <;> omega
    · split
      · dsimp only
        split <;> omega
      · next hstays =>
        have : ¬ p.emittedAtFrame + 1 = 10 := fun h => hstays (.inr h)
        dsimp only
        omega

/-- The place the loop will not fall back behind. -/
def Loop.settled (L : Loop S) : Place S := L.rewind.elim L.here Rewind.place

/-- How many attempts are left at that place: the match, its rival, and none. -/
def Loop.attempts (L : Loop S) : ℕ :=
  match L.rewind with
  | some r => if r.own then 3 else 1
  | none => if L.unbiased then 0 else if L.rival then 2 else 4

variable (encodingsLen) in
/-- What every turn lowers: the frames ahead of the settled place, the attempts left there, and the
frames ahead of the loop. -/
def Loop.left (L : Loop S) : ℕ ×ₗ ℕ ×ₗ ℕ :=
  toLex (encodingsLen * MAX_TOKENS_PER_STEP - progress encodingsLen L.settled,
    toLex (L.attempts, encodingsLen * MAX_TOKENS_PER_STEP - progress encodingsLen L.here))

variable (encodingsLen) in
/-- There is room at the frame, and a match began before the place the loop has come to. -/
structure Bounded (L : Loop S) : Prop where
  here : L.here.emittedAtFrame < MAX_TOKENS_PER_STEP
  rewind : ∀ r, L.rewind = some r → r.place.emittedAtFrame < MAX_TOKENS_PER_STEP ∧
    r.place.t < encodingsLen ∧ progress encodingsLen r.place < progress encodingsLen L.here

theorem left_lt_of_settled {L L' : Loop S}
    (h : progress encodingsLen L.settled < progress encodingsLen L'.settled)
    (hlt : progress encodingsLen L.settled < encodingsLen * MAX_TOKENS_PER_STEP) :
    L'.left encodingsLen < L.left encodingsLen :=
  Prod.Lex.toLex_lt_toLex.mpr (.inl (Nat.sub_lt_sub_left hlt h))

theorem left_lt_of_attempts {L L' : Loop S} (hsame : L'.settled = L.settled)
    (h : L'.attempts < L.attempts) : L'.left encodingsLen < L.left encodingsLen :=
  Prod.Lex.toLex_lt_toLex.mpr
    (.inr ⟨by rw [hsame], Prod.Lex.toLex_lt_toLex.mpr (.inl h)⟩)

theorem left_lt_of_here {L L' : Loop S} (hsame : L'.rewind = L.rewind) {r : Rewind S}
    (hr : L.rewind = some r) (h : progress encodingsLen L.here < progress encodingsLen L'.here)
    (hlt : progress encodingsLen L.here < encodingsLen * MAX_TOKENS_PER_STEP) :
    L'.left encodingsLen < L.left encodingsLen := by
  have hsettled : L'.settled = L.settled := by
    unfold Loop.settled
    rw [hsame, hr]
    rfl
  have hattempts : L'.attempts = L.attempts := by
    unfold Loop.attempts
    rw [hsame, hr]
  exact Prod.Lex.toLex_lt_toLex.mpr (.inr ⟨by rw [hsettled],
    Prod.Lex.toLex_lt_toLex.mpr (.inr ⟨hattempts, Nat.sub_lt_sub_left hlt h⟩)⟩)

/-- Going back uses up an attempt. -/
theorem Bounded.goBack {L : Loop S} {r : Rewind S} (h : Bounded encodingsLen L)
    (hr : L.rewind = some r) :
    Bounded encodingsLen (L.goBack (some r)) ∧
      (L.goBack (some r)).left encodingsLen < L.left encodingsLen := by
  obtain ⟨hroom, -, -⟩ := h.rewind r hr
  refine ⟨⟨hroom, fun _ hnone => by cases hnone⟩, left_lt_of_attempts ?_ ?_⟩
  · simp [Loop.settled, Loop.goBack, hr]
  · obtain ⟨place, n, own⟩ := r
    cases own <;> simp [Loop.attempts, Loop.goBack, hr]

variable (M encodings) in
/-- What a taken token leaves: the place it leads to, and the picked rewind or none. -/
theorem keep_cases (bias : Option KeywordBias) (L : Loop S) (p : Loop.Pick S) :
    (L.keep M encodings bias p).here = M.take encodings (matcher bias) L.here p.token ∧
      ((L.keep M encodings bias p).rewind = none ∨
        (L.keep M encodings bias p).rewind = p.rewind) := by
  unfold Loop.keep
  dsimp only
  split
  · exact ⟨rfl, .inr rfl⟩
  · refine ⟨rfl, ?_⟩
    dsimp only
    split
    · exact .inl rfl
    · exact .inr rfl

/-- **One turn lowers what is left.** -/
theorem Bounded.body {L : Loop S} (bias : Option KeywordBias) (h : Bounded encodingsLen L)
    (htest : L.test encodingsLen = true) :
    Bounded encodingsLen (L.body M encodings encodingsLen bias) ∧
      (L.body M encodings encodingsLen bias).left encodingsLen < L.left encodingsLen := by
  have hback : L.rewind.isSome = true → Bounded encodingsLen (L.goBack L.rewind) ∧
      (L.goBack L.rewind).left encodingsLen < L.left encodingsLen := by
    intro hsome
    obtain ⟨r, hr⟩ := Option.isSome_iff_exists.mp hsome
    rw [hr]
    exact h.goBack hr
  unfold Loop.body
  split
  case isFalse ht => exact hback (by simpa [Loop.test, ht] using htest)
  case isTrue ht =>
    have hlt := progress_lt ht h.here
    -- a token is taken, and no match begins with it
    have hkeep : ∀ token, Bounded encodingsLen
        (L.keep M encodings bias ⟨token, L.rewind, false⟩) ∧
        (L.keep M encodings bias ⟨token, L.rewind, false⟩).left encodingsLen
          < L.left encodingsLen := by
      intro token
      obtain ⟨hhere, hrewind⟩ := keep_cases M encodings bias L
        ⟨token, L.rewind, false⟩
      obtain ⟨hmore, hroom⟩ := progress_take M encodings (matcher bias) token
        ht h.here
      generalize L.keep M encodings bias ⟨token, L.rewind, false⟩ = L' at *
      rw [← hhere] at hmore hroom
      have hbehind : progress encodingsLen L.settled ≤ progress encodingsLen L.here := by
        unfold Loop.settled
        cases hr : L.rewind with
        | none => exact le_rfl
        | some r => exact (h.rewind r hr).2.2.le
      rcases hrewind with hnone | hsame
      · refine ⟨⟨hroom, fun r hr => by rw [hnone] at hr; cases hr⟩, left_lt_of_settled ?_ ?_⟩
        · simp only [Loop.settled, hnone, Option.elim_none]
          exact hbehind.trans_lt hmore
        · exact hbehind.trans_lt hlt
      · refine ⟨⟨hroom, fun r hr => ?_⟩, ?_⟩
        · obtain ⟨hr1, hr2, hr3⟩ := h.rewind r (hsame.symm.trans hr)
          exact ⟨hr1, hr2, hr3.trans hmore⟩
        · cases hr : L.rewind with
          | some r => exact left_lt_of_here hsame hr hmore hlt
          | none =>
            refine left_lt_of_settled ?_ (hbehind.trans_lt hlt)
            have hnone : L'.rewind = none := hsame.trans hr
            simp only [Loop.settled, hnone, hr, Option.elim_none]
            exact hmore
    dsimp only
    rcases pick_cases M encodings (matcher bias) L with
      hpick | ⟨chosen, starts, hpick, -, hunbiased, hrewind, -, -, hrival⟩ |
        ⟨chosen, hpick, -, -, -, -⟩
    · rw [hpick]
      split
      · next hbroken =>
        simp only [Loop.broken, Bool.and_eq_true] at hbroken
        exact hback hbroken.1.2
      · exact hkeep _
    · rw [hpick, if_neg (by simp [Loop.broken])]
      obtain ⟨hhere, hrewind'⟩ := keep_cases M encodings bias L
        ⟨chosen, some ⟨L.here, L.tokens.length, starts⟩, true⟩
      obtain ⟨hmore, hroom⟩ := progress_take M encodings (matcher bias) chosen
        ht h.here
      generalize L.keep M encodings bias ⟨chosen, some ⟨L.here, L.tokens.length, starts⟩, true⟩ = L'
        at *
      rw [← hhere] at hmore hroom
      rcases hrewind' with hnone | hsome
      · refine ⟨⟨hroom, fun r hr => by rw [hnone] at hr; cases hr⟩, left_lt_of_settled ?_ ?_⟩
        · simpa only [Loop.settled, hnone, hrewind, Option.elim_none] using hmore
        · simpa only [Loop.settled, hrewind, Option.elim_none] using hlt
      · refine ⟨⟨hroom, fun r hr => ?_⟩, left_lt_of_attempts ?_ ?_⟩
        · obtain rfl := Option.some.inj (hsome.symm.trans hr)
          exact ⟨h.here, ht, hmore⟩
        · simp [Loop.settled, hsome, hrewind]
        · -- a rival is not the model's own, so its match is not either
          simp only [Loop.attempts, hsome, hrewind, hunbiased]
          cases starts with
          | false => cases hr : L.rival <;> simp
          | true => simp [hrival rfl]
    · rw [hpick]
      split
      · next hbroken =>
        simp only [Loop.broken, Bool.and_eq_true] at hbroken
        exact hback hbroken.1.2
      · exact hkeep _

/-! ## The plain decode -/

/-- The plain decode at a place, with what it holds. -/
def plainAt (tokens : List Text) (timestamps : List ℚ) (p : Place S) : Greedy S where
  tokens := tokens
  timestamps := timestamps
  t := p.t
  emittedAtFrame := p.emittedAtFrame
  prevToken := p.prevToken
  decoderState := p.decoderState

/-- The plain decode takes the model's own choice, whatever the matcher. -/
theorem greedy_body (m : Matcher) (tokens : List Text) (timestamps : List ℚ) (p : Place S) :
    Greedy.body M encodings (plainAt tokens timestamps p) =
      plainAt
        (if M.own encodings p = M.blankIdx then tokens
          else tokens ++ [M.piece (M.own encodings p)])
        (if M.own encodings p = M.blankIdx then timestamps else timestamps ++ [p.t * FRAME_S])
        (M.take encodings m p (M.own encodings p)) := by
  unfold Greedy.body plainAt Model.take Model.moveOn
  have hown : argmax ((M.joint (encodings p.t) p.prevToken p.decoderState).1.take M.vocab.length) =
    M.own encodings p := rfl
  have hduration : argmax ((M.joint (encodings p.t) p.prevToken p.decoderState).1.drop
    M.vocab.length) = argmax (M.durLogits encodings p) := rfl
  dsimp only
  rw [hown, hduration]
  generalize argmax (M.durLogits encodings p) = duration
  by_cases hblank : M.own encodings p = M.blankIdx
  · rcases Nat.eq_zero_or_pos duration with rfl | hpos
    · simp [hblank]
    · simp [hblank, hpos, hpos.ne']
  · rcases Nat.eq_zero_or_pos duration with rfl | hpos
    · by_cases hfull : p.emittedAtFrame + 1 = MAX_TOKENS_PER_STEP
      · simp [hblank, hfull, Model.adopt, Model.step]
      · simp [hblank, hfull, Model.adopt, Model.step]
    · simp [hblank, hpos, hpos.ne', Model.adopt, Model.step]

/-- A chain of own choices is a run of the plain decode. Induction on the chain. -/
theorem Plain.turns {m : Matcher} {trail : List (ℕ × Place S)} {p : Place S}
    (h : Plain M encodings encodingsLen m trail p) :
    While.Turns (Greedy.test encodingsLen) (Greedy.body M encodings)
      { prevToken := M.blankIdx, decoderState := M.zeroState }
      (plainAt (trail.map fun e => M.piece e.1) (trail.map fun e => e.2.t * FRAME_S) p) := by
  induction h with
  | start => exact .refl
  | @own trail p _ ht ih =>
    refine ih.tail ⟨?_, ?_⟩
    · exact decide_eq_true ht
    · rw [greedy_body m]
      unfold Model.emission
      split <;> simp

/-- What a loop without a bias holds of the plain decode. -/
def Loop.plain (L : Loop S) : Greedy S := plainAt L.tokens L.timestamps L.here

/-- Without a bias no match begins, and a turn is one of the plain decode. -/
theorem unbiased_body {L : Loop S} (hrewind : L.rewind = none) (ht : L.here.t < encodingsLen) :
    (L.body M encodings encodingsLen none).rewind = none ∧
      (L.body M encodings encodingsLen none).plain = Greedy.body M encodings L.plain := by
  have hpick : L.pick M encodings (matcher none) = ⟨M.own encodings L.here, none, false⟩ := by
    unfold Loop.pick
    simp [matcher, UNBIASED, hrewind]
  have hbody : L.body M encodings encodingsLen none =
      L.keep M encodings none ⟨M.own encodings L.here, none, false⟩ := by
    unfold Loop.body
    rw [if_pos ht]
    dsimp only
    rw [hpick, if_neg (by simp [Loop.broken])]
  rw [hbody]
  constructor
  · rcases (keep_cases M encodings none L
      ⟨M.own encodings L.here, none, false⟩).2 with h | h <;> exact h
  · unfold Loop.plain
    rw [greedy_body (matcher none)]
    unfold Loop.keep
    dsimp only
    split <;> rfl

/-- **Without a bias the loop is the plain greedy decode**, turn by turn. -/
theorem decode_none (fuel : ℕ) :
    (decode M encodings encodingsLen none fuel).map Loop.plain =
      greedy M encodings encodingsLen fuel := by
  refine While.lockstep (I := fun L => L.rewind = none) ?_ ?_ fuel _ rfl
  · intro L hrewind
    simp [Loop.test, Greedy.test, hrewind, Loop.plain, plainAt]
    rfl
  · intro L hrewind htest
    exact unbiased_body hrewind (by simpa [Loop.test, hrewind] using htest)

/-! ## The result -/

section Result

variable {U : Unicode} {upper : Char → Text} {keywords : List Text} {boostPerChar : ℚ}
  {bias : KeywordBias}

/-- The text of a match in progress ends the prefix it has come to. -/
theorem Provisional.text {P : Text → Prop} (hauto : Automaton P M.vocab M.blankIdx bias)
    {p q : Place S} {block : List (ℕ × Place S)}
    (h : Provisional M encodings encodingsLen bias p block q) :
    ∃ spelt, bias.prefixes[q.state]? = some spelt ∧
      (block.flatMap fun e => M.piece e.1) <:+ spelt := by
  induction h with
  | @starts token _ hne hchild =>
    obtain ⟨state, -, hchild⟩ := hchild
    obtain ⟨-, spelt, -, htarget⟩ := hauto.piece_of_child hchild
    refine ⟨_, by rw [take_state _ _ hne]; exact htarget, ?_⟩
    exact ⟨spelt, by simp [KeywordBias.word, Model.piece]⟩
  | @waits block q h _ _ ih =>
    obtain ⟨spelt, hspelt, hsuffix⟩ := ih
    exact ⟨spelt, by rw [take_blank_state]; exact hspelt, hsuffix⟩
  | @goesOn block q token h _ hne hchild ih =>
    obtain ⟨spelt, hspelt, hsuffix⟩ := ih
    obtain ⟨-, spelt', hspelt', htarget⟩ := hauto.piece_of_child hchild
    obtain rfl : spelt = spelt' := Option.some.inj (hspelt.symm.trans hspelt')
    refine ⟨_, by rw [take_state _ _ hne]; exact htarget, ?_⟩
    rw [List.flatMap_append]
    obtain ⟨before, rfl⟩ := hsuffix
    exact ⟨before, by simp [KeywordBias.word, Model.piece]⟩

variable (M encodings encodingsLen U upper keywords bias) in
/-- The tokens of a match that completed: they end the spelling of a keyword. -/
def Completed (block : List (ℕ × Place S)) : Prop :=
  ∃ p q, Provisional M encodings encodingsLen bias p block q ∧ q.state ∈ bias.complete ∧
    ∃ spelling ∈ KeywordBias.spellings U upper keywords,
      bias.prefixes[q.state]? = some spelling ∧ (block.flatMap fun e => M.piece e.1) <:+ spelling

/-- Every token of a chain is the model's own at its place, or part of a completed match. -/
theorem Trail.explained
    (hbias : KeywordBias.keywordBias U upper keywords M.vocab M.blankIdx boostPerChar = some bias)
    {trail : List (ℕ × Place S)} {p : Place S} (h : Trail M encodings encodingsLen bias trail p) :
    ∀ e ∈ trail, e.1 = M.own encodings e.2 ∨ ∃ block, block <:+: trail ∧ e ∈ block ∧
      Completed M encodings encodingsLen U upper keywords bias block := by
  have hauto := KeywordBias.automaton_of_keywordBias hbias
  induction h with
  | start => intro e he; cases he
  | @own trail p _ _ ih =>
    intro e he
    rcases List.mem_append.mp he with he | he
    · rcases ih e he with hown | ⟨block, hblock, hmem, hcompleted⟩
      · exact .inl hown
      · exact .inr ⟨block, hblock.trans (List.prefix_append _ _).isInfix, hmem, hcompleted⟩
    · unfold Model.emission at he
      split at he
      · cases he
      · rw [List.mem_singleton.mp he]
        exact .inl rfl
  | @matched trail p block q _ hblock hcomplete ih =>
    intro e he
    rcases List.mem_append.mp he with he | he
    · rcases ih e he with hown | ⟨block', hblock', hmem, hcompleted⟩
      · exact .inl hown
      · exact .inr ⟨block', hblock'.trans (List.prefix_append _ _).isInfix, hmem, hcompleted⟩
    · refine .inr ⟨block, (List.suffix_append _ _).isInfix, he, p, q, hblock, hcomplete, ?_⟩
      obtain ⟨spelling, hspelling, hpre⟩ := KeywordBias.spelling_of_complete hbias hcomplete
      obtain ⟨spelt, hspelt, hsuffix⟩ := hblock.text hauto
      obtain rfl : spelling = spelt := Option.some.inj (hpre.symm.trans hspelt)
      exact ⟨spelling, hspelling, hpre, hsuffix⟩

/-- **The keyword bias costs nothing unless a keyword is found.** The loop ends. What it then holds
is a chain of own choices and completed matches; where no turn completed a match, it is the plain
greedy decode; and so it is, turn by turn, without a bias. -/
theorem bias_costs_nothing (M : Model Frame S) (encodings : ℕ → Frame) (encodingsLen : ℕ)
    (hbias : KeywordBias.keywordBias U upper keywords M.vocab M.blankIdx boostPerChar =
      some bias) :
    (∃ held fuel, decode M encodings encodingsLen (some bias) fuel = some held ∧
      (∃ trail, Trail M encodings encodingsLen bias trail held.here ∧
        encodingsLen ≤ held.here.t ∧ Held M encodings held trail ∧
        ∀ e ∈ trail, e.1 = M.own encodings e.2 ∨ ∃ block, block <:+: trail ∧ e ∈ block ∧
          Completed M encodings encodingsLen U upper keywords bias block) ∧
      ((∀ L, While.Turns (Loop.test encodingsLen) (Loop.body M encodings encodingsLen (some bias))
          { here := M.start } L → ¬ L.completes M encodings encodingsLen (biased bias)) →
        ∃ plain fuel, greedy M encodings encodingsLen fuel = some plain ∧
          held.tokens = plain.tokens ∧ held.timestamps = plain.timestamps)) ∧
    ∀ fuel, (decode M encodings encodingsLen none fuel).map Loop.plain =
      greedy M encodings encodingsLen fuel := by
  refine ⟨?_, decode_none⟩
  have hauto := KeywordBias.automaton_of_keywordBias hbias
  have hstart : Bounded encodingsLen ({ here := M.start } : Loop S) :=
    ⟨show 0 < MAX_TOKENS_PER_STEP by decide, fun r hr => by cases hr⟩
  have hheld : Held M encodings ({ here := M.start } : Loop S) [] := ⟨rfl, rfl, rfl⟩
  obtain ⟨held, ⟨fuel, hfuel⟩, ⟨-, hinv⟩, htest⟩ := While.total
    (Loop.test encodingsLen) (Loop.body M encodings encodingsLen (some bias))
    wellFounded_lt
    (I := fun L => Bounded encodingsLen L ∧
      Inv M encodings encodingsLen bias (Trail M encodings encodingsLen bias) L)
    (Loop.left encodingsLen)
    (fun L hL ht => ⟨⟨(hL.1.body (some bias) ht).1,
      Inv.body hauto (fun h ht => h.own ht) (fun _ _ _ _ _ h hb hc => h.matched hb hc) ht hL.2⟩,
      (hL.1.body (some bias) ht).2⟩)
    { here := M.start } ⟨hstart, .free [] rfl hheld .start⟩
  have hturns := (While.turns_of_loop hfuel).1
  have hend : encodingsLen ≤ held.here.t ∧ held.rewind = none := by
    simpa [Loop.test] using htest
  refine ⟨held, fuel, hfuel, ?_, ?_⟩
  · cases hinv with
    | provisional r _ _ hrewind => rw [hend.2] at hrewind; cases hrewind
    | free trail _ hheld hchain =>
      exact ⟨trail, hchain, hend.1, hheld, hchain.explained hbias⟩
  · intro hnever
    have hplain : ∀ L, While.Turns (Loop.test encodingsLen)
        (Loop.body M encodings encodingsLen (some bias)) { here := M.start } L →
        Inv M encodings encodingsLen bias (Plain M encodings encodingsLen (biased bias)) L := by
      intro L hL
      induction hL with
      | refl => exact .free [] rfl hheld .start
      | tail hL hstep ih =>
        obtain ⟨ht, rfl⟩ := hstep
        exact Inv.body hauto (fun h ht => h.own ht) (fun hc => absurd hc (hnever _ hL)) ht ih
    cases hplain held hturns with
    | provisional r _ _ hrewind => rw [hend.2] at hrewind; cases hrewind
    | free trail _ hheld hchain =>
      obtain ⟨fuel', hfuel'⟩ := While.returns_of_turns hchain.turns
        (decide_eq_false (not_lt.mpr hend.1))
      exact ⟨_, fuel', hfuel', hheld.tokens, hheld.timestamps⟩

end Result

end Decode

/-- A network whose frames are its logits: over `newYork` and the durations zero and one. -/
def spelling : Model (List ℚ) Unit where
  vocab := KeywordBias.newYork
  blankIdx := 5
  joint frame _ _ := (frame, ())
  zeroState := ()
  probability _ _ := 1

/-- " N" boosted over "e", a boosted "ew" after it, and then a blank: the match comes to nothing. -/
def brokenMatch : ℕ → List ℚ
  | 0 => [1, 2, 0, 0, 0, 0, 0, 1]
  | 1 => [0, 2, 0, 0, 3, 0, 0, 1]
  | _ => [0, 0, 0, 0, 0, 9, 0, 1]

example : ((KeywordBias.keywordBias .ascii KeywordBias.upperAscii
      [['N', 'e', 'w', ' ', 'Y', 'a', 'k']] KeywordBias.newYork 5 3).bind fun bias =>
        (decode spelling brokenMatch 3 (some bias) 20).map Loop.tokens) =
    (greedy spelling brokenMatch 3 20).map Greedy.tokens := by decide +kernel

/-- A bias, and the utterance it does not change. -/
theorem brokenMatch_costs_nothing : ∃ bias,
    KeywordBias.keywordBias .ascii KeywordBias.upperAscii
      [['N', 'e', 'w', ' ', 'Y', 'a', 'k']] spelling.vocab spelling.blankIdx 3 = some bias ∧
    ∃ held fuel, decode spelling brokenMatch 3 (some bias) fuel = some held := by
  cases hbias : KeywordBias.keywordBias .ascii KeywordBias.upperAscii
      [['N', 'e', 'w', ' ', 'Y', 'a', 'k']] spelling.vocab spelling.blankIdx 3 with
  | none => exact absurd hbias (by decide +kernel)
  | some bias =>
    obtain ⟨⟨held, fuel, hheld, -⟩, -⟩ := bias_costs_nothing spelling brokenMatch 3 hbias
    exact ⟨bias, rfl, held, fuel, hheld⟩

end Parakeet

end Myna

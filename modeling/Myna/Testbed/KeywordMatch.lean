import Myna.Lib.LongestSuffix
import Myna.Testbed.KeywordPaths

/-!
# Myna — what the keyword automaton tracks

After any tokens the automaton is in the state of the longest text on a keyword's path with which
the emitted text ends. A space stands only at the start of a piece, and every path starts with one,
so the part of the emitted text that a match covers is made of whole pieces.

* **`emitted`** — the text since the last token that spells nothing;
* **`Tracks`** — the three facts: the state, the links, and the tokens that are boosted;
* **`keywordBias_tracks`** — they hold after any tokens.
-/

namespace Myna

namespace KeywordBias

/-! ## The automaton that is built -/

section Automaton

variable {U : Unicode} {upper : Char → Text} {keywords vocab : List Text} {blank : ℕ}
  {boostPerChar : ℚ} {bias : KeywordBias}

/-- The texts on the paths of the keywords. -/
def Live (U : Unicode) (upper : Char → Text) (keywords vocab : List Text) (blank : ℕ)
    (p : Text) : Prop :=
  OnPath (pieces vocab blank) (spellings U upper keywords) p

def index (bias : KeywordBias) (p : Text) : Option ℕ := bias.prefixes.idxOf? p

theorem tails_eq_range' (p : Text) : p.tails = p :: (List.range' 1 p.length).map p.drop := by
  induction p with
  | nil => rfl
  | cons a p ih =>
    rw [List.tails_cons, ih, List.length_cons, List.range'_succ, List.range'_succ_left (s := 1)]
    simp [Function.comp_def]

/-- The automaton as built: its states, its edges and its links, said of the texts. -/
structure Automaton (P : Text → Prop) (vocab : List Text) (blank : ℕ) (bias : KeywordBias) :
    Prop where
  root : bias.prefixes[ROOT]? = some []
  live_nil : P []
  index_iff : ∀ p (s : ℕ), bias.index p = some s ↔ bias.prefixes[s]? = some p
  mem_iff : ∀ p, (∃ s : ℕ, bias.prefixes[s]? = some p) ↔ P p
  child_iff : ∀ s t (target : ℕ), bias.child s t = some target ↔
    ∃ p w, bias.prefixes[s]? = some p ∧ bias.prefixes[target]? = some (p ++ w) ∧
      P p ∧ P (p ++ w) ∧ (pieces vocab blank).get? w = some t
  chain : ∀ (s : ℕ) p, bias.prefixes[s]? = some p →
    s :: bias.fallbacks s = p.tails.filterMap bias.index

theorem automaton_of_keywordBias
    (h : keywordBias U upper keywords vocab blank boostPerChar = some bias) :
    Automaton (Live U upper keywords vocab blank) vocab blank bias := by
  have hbuilt : Built (word vocab) (Mentioned (edgesOf (pieces vocab blank) _)) _ _ :=
    @built_spellings _ blank (spellings U upper keywords) _ _ built_init
  simp only [keywordBias] at h
  generalize (spellings U upper keywords).foldl (Builder.addSpelling (pieces vocab blank)) {} = b
    at h hbuilt
  split at h
  case isTrue => cases h
  case isFalse hmore =>
    obtain rfl := Option.some.inj h
    have hnil : Live U upper keywords vocab blank [] := by
      -- there is a second state, and it lies on a path
      have hlen : 1 < b.prefixes.length := by
        have := (List.getElem?_eq_some_iff.mp hbuilt.root).1
        omega
      have hget : b.prefixes[1]? = some b.prefixes[1] := List.getElem?_eq_getElem hlen
      have hne : b.prefixes[1] ≠ [] := by
        intro hnil
        rw [hnil] at hget
        have := getElem?_inj_of_nodup hbuilt.nodup hbuilt.root hget
        cases this
      have hmem := (hbuilt.mem_prefixes _).mp (List.mem_of_getElem? hget)
      obtain ⟨spelling, hin, rest, hsplit, hp, hrest⟩ :=
        (mentioned_edgesOf.mp hmem).resolve_left hne
      exact ⟨spelling, hin, spelling, rfl, Spelt.nil, hsplit ▸ hp.append hrest⟩
    refine ⟨hbuilt.root, hnil, fun p s => hbuilt.index_eq_some, ?_, ?_, ?_⟩
    · intro p
      show (∃ s : ℕ, b.prefixes[s]? = some p) ↔ _
      rw [← List.mem_iff_getElem?, hbuilt.mem_prefixes, mentioned_edgesOf]
      exact ⟨fun hp => hp.elim (fun hp => hp ▸ hnil) id, .inr⟩
    · intro s t target
      show lookup b.children s t = some target ↔ _
      rw [hbuilt.child]
      constructor
      · rintro ⟨p, q, hp, hq, hmem⟩
        obtain ⟨hlive, hlive', w, hget, rfl⟩ := mem_edgesOf.mp hmem
        exact ⟨p, w, hp, hq, hlive, hlive', hget⟩
      · rintro ⟨p, w, hp, hq, hlive, hlive', hget⟩
        exact ⟨p, p ++ w, hp, hq, mem_edgesOf.mpr ⟨hlive, hlive', w, hget, rfl⟩⟩
    · intro s p hp
      have hindex : (init b (vocab.map fun piece =>
          boostPerChar * max 1 (U.strip piece).length)).index p = some s :=
        hbuilt.index_eq_some.mpr hp
      have hfallbacks : (init b (vocab.map fun piece =>
          boostPerChar * max 1 (U.strip piece).length)).fallbacks s =
            (List.range' 1 p.length).filterMap fun k => b.index (p.drop k) := by
        show ((b.prefixes.map _)[s]?).getD [] = _
        rw [List.getElem?_map, show b.prefixes[s]? = some p from hp]
        rfl
      rw [hfallbacks, tails_eq_range', List.filterMap_cons_some hindex, List.filterMap_map]
      rfl

/-! ## One token -/

namespace Automaton

variable {P : Text → Prop}

theorem unique (h : Automaton P vocab blank bias) {s s' : ℕ} {p : Text}
    (hs : bias.prefixes[s]? = some p) (hs' : bias.prefixes[s']? = some p) : s = s' :=
  Option.some.inj (((h.index_iff p s).mpr hs).symm.trans ((h.index_iff p s').mpr hs'))

theorem live (h : Automaton P vocab blank bias) {s : ℕ} {p : Text}
    (hs : bias.prefixes[s]? = some p) : P p :=
  (h.mem_iff p).mp ⟨s, hs⟩

theorem isSome_index (h : Automaton P vocab blank bias) {q : Text} :
    (bias.index q).isSome = true ↔ P q := by
  rw [← h.mem_iff q, Option.isSome_iff_exists]
  exact exists_congr fun s => h.index_iff q s

/-- **The links of a state lead to the proper suffixes on a path, the longest one first.** -/
theorem head_fallbacks (h : Automaton P vocab blank bias) {s f : ℕ} {p : Text}
    (hs : bias.prefixes[s]? = some p) :
    (bias.fallbacks s).head? = some f ↔
      ∃ q, bias.prefixes[f]? = some q ∧ LongestSuffix (fun q => P q ∧ q ≠ p) p q := by
  have hchain := h.chain s p hs
  have hindex := (h.index_iff p s).mpr hs
  cases p with
  | nil =>
    rw [List.tails, List.filterMap_cons_some hindex] at hchain
    rw [(List.cons.inj hchain).2]
    constructor
    · intro hnone
      cases hnone
    · rintro ⟨q, -, hq⟩
      exact absurd (List.suffix_nil.mp hq.suffix) hq.mem.2
  | cons a p =>
    rw [List.tails_cons, List.filterMap_cons_some hindex] at hchain
    rw [(List.cons.inj hchain).2, List.head?_filterMap]
    have hproper : ∀ r : Text, r <:+ a :: p ∧ r ≠ a :: p ↔ r <:+ p := by
      intro r
      constructor
      · rintro ⟨hsuffix, hne⟩
        exact (List.suffix_cons_iff.mp hsuffix).resolve_left hne
      · intro hsuffix
        refine ⟨hsuffix.trans (List.suffix_cons a p), fun heq => ?_⟩
        have := hsuffix.length_le
        rw [heq, List.length_cons] at this
        omega
    have hfind : ∀ f, p.tails.findSome? bias.index = some f →
        ∃ q, bias.prefixes[f]? = some q ∧ LongestSuffix (fun q => P q ∧ q ≠ a :: p) (a :: p) q := by
      intro f hf
      obtain ⟨q, hq, hlongest⟩ := findSome?_tails hf
      obtain ⟨hsuffix, hne⟩ := (hproper q).mpr hlongest.suffix
      refine ⟨q, (h.index_iff q f).mp hq, ⟨h.isSome_index.mp hlongest.mem, hne⟩, hsuffix, ?_⟩
      intro r hr hr'
      exact hlongest.longest r (h.isSome_index.mpr hr.1) ((hproper r).mp ⟨hr', hr.2⟩)
    refine ⟨hfind f, ?_⟩
    rintro ⟨q, hq, hlongest⟩
    cases hf : p.tails.findSome? bias.index with
    | none =>
      have hmem : q ∈ p.tails := by
        rw [List.mem_tails]
        exact (hproper q).mp ⟨hlongest.suffix, hlongest.mem.2⟩
      have := List.findSome?_eq_none_iff.mp hf q hmem
      rw [(h.index_iff q f).mpr hq] at this
      cases this
    | some f' =>
      obtain ⟨q', hq', hlongest'⟩ := hfind f' hf
      obtain rfl := hlongest'.unique hlongest
      rw [h.unique hq' hq]

/-- Going down the links of a state is going down the suffixes of its text. -/
theorem findSome?_chain (h : Automaton P vocab blank bias) {s : ℕ} {p : Text}
    (hs : bias.prefixes[s]? = some p) {β : Type} (f : ℕ → Option β) :
    (s :: bias.fallbacks s).findSome? f = p.tails.findSome? fun q => (bias.index q).bind f := by
  rw [h.chain s p hs, ← List.head?_filterMap, List.filterMap_filterMap, List.head?_filterMap]

/-- A token goes on from a text on a path exactly when that leads to a text on a path. -/
theorem child_index_iff (h : Automaton P vocab blank bias) {q w : Text} {t target : ℕ}
    (hget : (pieces vocab blank).get? w = some t) :
    ((bias.index q).bind fun s => bias.child s t) = some target ↔
      P q ∧ P (q ++ w) ∧ bias.prefixes[target]? = some (q ++ w) := by
  rw [Option.bind_eq_some_iff]
  constructor
  · rintro ⟨s, hs, hchild⟩
    obtain ⟨p, w', hp, htarget, hlive, hlive', hget'⟩ := (h.child_iff s t target).mp hchild
    obtain rfl : p = q := Option.some.inj (hp.symm.trans ((h.index_iff q s).mp hs))
    obtain rfl : w' = w := (word_of_get? hget').symm.trans (word_of_get? hget)
    exact ⟨hlive, hlive', htarget⟩
  · rintro ⟨hlive, hlive', htarget⟩
    obtain ⟨s, hs⟩ := (h.mem_iff q).mpr hlive
    exact ⟨s, (h.index_iff q s).mpr hs,
      (h.child_iff s t target).mpr ⟨q, w, hs, htarget, hlive, hlive', hget⟩⟩

/-- `advance` goes down the links until a state goes on with the token. -/
theorem advance_eq (bias : KeywordBias) (s t : ℕ) :
    (bias.advance s t).1 =
      ((s :: bias.fallbacks s).findSome? fun state => bias.child state t).getD ROOT := by
  unfold advance
  rw [List.findSome?_cons]
  cases bias.child s t with
  | some target => rfl
  | none =>
    cases (bias.fallbacks s).findSome? fun fallback => bias.child fallback t <;> rfl

/-- **One piece**: the longest live suffix that goes on with it, or none. -/
theorem advance_piece (h : Automaton P vocab blank bias) {s t : ℕ} {text p w : Text}
    (hs : bias.prefixes[s]? = some p) (hlongest : LongestSuffix P text p)
    (hget : (pieces vocab blank).get? w = some t)
    (hsplit : ∀ r, P r → r <:+ text ++ w → r ≠ [] → ∃ q, P q ∧ q <:+ text ∧ r = q ++ w) :
    ∃ p', bias.prefixes[(bias.advance s t).1]? = some p' ∧ LongestSuffix P (text ++ w) p' := by
  rw [advance_eq, h.findSome?_chain hs]
  cases hfind : p.tails.findSome? fun q => (bias.index q).bind fun state => bias.child state t with
  | some target =>
    obtain ⟨q, hq, hbest⟩ := findSome?_tails hfind
    obtain ⟨hlive, hlive', htarget⟩ := (h.child_index_iff hget).mp hq
    refine ⟨q ++ w, htarget, hlongest.push hsplit ⟨⟨hlive, hlive'⟩, hbest.suffix, ?_⟩⟩
    rintro r ⟨hr, hr'⟩ hsuffix
    obtain ⟨state, hstate⟩ := (h.mem_iff (r ++ w)).mpr hr'
    refine hbest.longest r ?_ hsuffix
    rw [(h.child_index_iff hget).mpr ⟨hr, hr', hstate⟩]
    rfl
  | none =>
    refine ⟨[], h.root, hlongest.drop h.live_nil hsplit ?_⟩
    intro q hq hsuffix hq'
    obtain ⟨state, hstate⟩ := (h.mem_iff (q ++ w)).mpr hq'
    have hnone := List.findSome?_eq_none_iff.mp hfind q ((List.mem_tails _ _).mpr hsuffix)
    rw [(h.child_index_iff hget).mpr ⟨hq, hq', hstate⟩] at hnone
    cases hnone

/-- A token that is no piece leads back to the root. -/
theorem advance_other (h : Automaton P vocab blank bias) {s t : ℕ}
    (hnone : ∀ w, (pieces vocab blank).get? w ≠ some t) : (bias.advance s t).1 = ROOT := by
  have hchild : ∀ state, bias.child state t = none := by
    intro state
    cases hc : bias.child state t with
    | none => rfl
    | some target =>
      obtain ⟨p, w, -, -, -, -, hget⟩ := (h.child_iff state t target).mp hc
      exact absurd hget (hnone w)
  rw [advance_eq, List.findSome?_eq_none_iff.mpr fun state _ => hchild state]
  rfl

/-- The tokens that are boosted are those that some state of the chain goes on with. -/
theorem mem_offer_iff (bias : KeywordBias) {s t : ℕ} :
    t ∈ (bias.offer s).map Prod.fst ↔
      ∃ state ∈ s :: bias.fallbacks s, ∃ target, bias.child state t = some target := by
  have hmap : (bias.offer s).map Prod.fst = ((s :: bias.fallbacks s).flatMap fun s =>
      Dict.keys ((bias.children[s]?).getD [])).eraseDups := by
    unfold offer
    rw [List.map_map]
    exact List.map_id _
  rw [hmap, List.mem_eraseDups, List.mem_flatMap]
  refine exists_congr fun state => and_congr_right fun _ => ?_
  rw [Dict.mem_keys]
  show _ ↔ ∃ target, ((bias.children[state]?).bind fun child => Dict.get? child t) = some target
  cases bias.children[state]? with
  | none => simp [Dict.get?]
  | some child => rfl

/-- **The tokens that are boosted are those that go on from a live match.** -/
theorem mem_offer (h : Automaton P vocab blank bias) {s t : ℕ} {text p : Text}
    (hs : bias.prefixes[s]? = some p) (hlongest : LongestSuffix P text p) :
    t ∈ (bias.offer s).map Prod.fst ↔
      ∃ q w, P q ∧ q <:+ text ∧ (pieces vocab blank).get? w = some t ∧ P (q ++ w) := by
  rw [mem_offer_iff, h.chain s p hs]
  constructor
  · rintro ⟨state, hstate, hmem⟩
    obtain ⟨q, hq, hindex⟩ := List.mem_filterMap.mp hstate
    obtain ⟨target, hchild⟩ := hmem
    obtain ⟨q', w, hq', -, hlive, hlive', hget⟩ := (h.child_iff state t target).mp hchild
    obtain rfl : q' = q := Option.some.inj (hq'.symm.trans ((h.index_iff q state).mp hindex))
    exact ⟨q', w, hlive, (hlongest.suffix_iff hlive).mpr ((List.mem_tails _ _).mp hq), hget, hlive'⟩
  · rintro ⟨q, w, hlive, hsuffix, hget, hlive'⟩
    obtain ⟨target, htarget⟩ := (h.mem_iff (q ++ w)).mpr hlive'
    obtain ⟨state, hindex, hchild⟩ := Option.bind_eq_some_iff.mp
      ((h.child_index_iff hget).mpr ⟨hlive, hlive', htarget⟩)
    refine ⟨state, List.mem_filterMap.mpr ⟨q, ?_, hindex⟩, target, hchild⟩
    exact (List.mem_tails _ _).mpr ((hlongest.suffix_iff hlive).mp hsuffix)

end Automaton

/-! ## Texts of pieces -/

/-- Every path starts with a space. -/
theorem head?_live {q : Text} (hlive : Live U upper keywords vocab blank q) (hne : q ≠ []) :
    q.head? = some ' ' := by
  obtain ⟨spelling, hin, rest, rfl, -, -⟩ := hlive
  have hin' := List.mem_eraseDups.mp hin
  obtain ⟨text, -, htext⟩ := List.mem_flatMap.mp hin'
  cases q with
  | nil => exact absurd rfl hne
  | cons c q =>
    rw [List.cons_append] at htext
    rcases List.mem_cons.mp htext with heq | htext
    · rw [(List.cons.inj heq).1]
      rfl
    · rw [(List.cons.inj (List.mem_singleton.mp htext)).1]
      rfl

/-- A suffix that starts with a space starts at a piece, if only the start of a piece is one. -/
theorem suffix_of_pieces : ∀ {path : List Text} {q : Text}, (∀ w ∈ path, ' ' ∉ w.tail) →
    q.head? = some ' ' → q <:+ path.flatten → ∃ more, more <:+ path ∧ q = more.flatten
  | [], q, _, hhead, hsuffix => by
    rw [List.suffix_nil.mp hsuffix] at hhead
    cases hhead
  | w :: path, q, hspace, hhead, hsuffix => by
    have hrec : q <:+ path.flatten → ∃ more, more <:+ w :: path ∧ q = more.flatten := by
      intro hsuffix
      obtain ⟨more, hmore, hflat⟩ := suffix_of_pieces
        (fun w' hw' => hspace w' (List.mem_cons_of_mem _ hw')) hhead hsuffix
      exact ⟨more, hmore.trans (List.suffix_cons w path), hflat⟩
    obtain ⟨before, hbefore⟩ := hsuffix
    rw [List.flatten_cons] at hbefore
    rcases List.append_eq_append_iff.mp hbefore with ⟨more, hw, hq⟩ | ⟨more, -, hpath⟩
    · cases more with
      | nil =>
        exact hrec (by rw [hq, List.nil_append])
      | cons c more =>
        -- the suffix starts inside the piece, so at its first character
        obtain rfl : c = ' ' := by
          rw [hq] at hhead
          exact Option.some.inj hhead
        cases before with
        | nil => exact ⟨w :: path, List.suffix_rfl, by rw [List.flatten_cons, hw]; exact hq⟩
        | cons c before =>
          refine absurd ?_ (hspace w (by simp))
          rw [hw]
          simp
    · exact hrec ⟨more, hpath.symm⟩

/-- **A match that ends with a piece was a match before it.** The match starts where a piece of the
text does, so what is left of it without the piece is spelt too. -/
theorem live_split (hspace : ∀ t piece, vocab[t]? = some piece → Spells blank piece t →
      ' ' ∉ piece.tail) {text w r : Text} {t : ℕ} (htext : Spelt (pieces vocab blank) text)
    (hget : (pieces vocab blank).get? w = some t)
    (hlive : Live U upper keywords vocab blank r) (hsuffix : r <:+ text ++ w) (hne : r ≠ []) :
    ∃ q, Live U upper keywords vocab blank q ∧ q <:+ text ∧ r = q ++ w := by
  have hhead := head?_live hlive hne
  have htail : ∀ w t, (pieces vocab blank).get? w = some t → ' ' ∉ w.tail := by
    intro w t hget
    obtain ⟨hw, hspells⟩ := spells_of_get? hget
    exact hspace t w hw hspells
  obtain ⟨path, hpath, rfl⟩ := htext
  have hpieces : ∀ w' ∈ path ++ [w], w' ≠ [] ∧ ∃ t, (pieces vocab blank).get? w' = some t := by
    intro w' hw'
    rcases List.mem_append.mp hw' with hw' | hw'
    · exact hpath w' hw'
    · rw [List.mem_singleton.mp hw']
      exact ⟨(spells_of_get? hget).2.1, t, hget⟩
  obtain ⟨more, hmore, rfl⟩ := @suffix_of_pieces (path ++ [w]) _
    (fun w' hw' => let ⟨_, t', ht'⟩ := hpieces w' hw'; htail w' t' ht') hhead
      (by simpa using hsuffix)
  rcases List.eq_nil_or_concat' more with rfl | ⟨start, last, rfl⟩
  · exact absurd rfl hne
  · obtain ⟨before, hbefore⟩ := hmore
    rw [← List.append_assoc] at hbefore
    obtain ⟨hstart, hlast⟩ := List.append_inj' hbefore rfl
    obtain rfl : last = w := by simpa using hlast
    obtain ⟨spelling, hin, rest, hsplit, -, hrest⟩ := hlive
    refine ⟨start.flatten, ⟨spelling, hin, last ++ rest, ?_, ?_, ?_⟩, ?_, by simp⟩
    · rw [hsplit]
      simp
    · exact ⟨start, fun w' hw' => hpath w' (hstart ▸ List.mem_append_right _ hw'), rfl⟩
    · exact (Spelt.piece (spells_of_get? hget).2.1 hget).append hrest
    · rw [← hstart, List.flatten_append]
      exact List.suffix_append _ _

/-! ## Any tokens -/

/-- The text after one more token: one that spells nothing breaks it off. -/
def emit (vocab : List Text) (blank : ℕ) (text : Text) (t : ℕ) : Text :=
  match vocab[t]? with
  | some piece => if Spells blank piece t then text ++ piece else []
  | none => []

/-- The text since the last token that spells nothing. -/
def emitted (vocab : List Text) (blank : ℕ) (tokens : List ℕ) : Text :=
  tokens.foldl (emit vocab blank) []

/-- The text of tokens all of which spell. -/
theorem emitted_eq_flatMap {tokens : List ℕ}
    (h : ∀ t ∈ tokens, ∃ piece, vocab[t]? = some piece ∧ Spells blank piece t) :
    emitted vocab blank tokens = tokens.flatMap (word vocab) := by
  induction tokens using List.reverseRecOn with
  | nil => rfl
  | append_singleton tokens t ih =>
    obtain ⟨piece, hpiece, hspells⟩ := h t (by simp)
    have hrest := ih fun t' ht' => h t' (by simp [ht'])
    unfold emitted at hrest ⊢
    rw [List.foldl_append, List.foldl_cons, List.foldl_nil, hrest]
    simp [emit, word, hpiece, hspells]

theorem after_concat (bias : KeywordBias) (tokens : List ℕ) (t : ℕ) :
    bias.after (tokens ++ [t]) = (bias.advance (bias.after tokens) t).1 := by
  simp [after]

/-- The state after any tokens, and that the text it reads is made of pieces. -/
theorem Automaton.after (h : Automaton (Live U upper keywords vocab blank) vocab blank bias)
    (hdistinct : ∀ t t' piece, vocab[t]? = some piece → vocab[t']? = some piece →
      Spells blank piece t → Spells blank piece t' → t = t')
    (hspace : ∀ t piece, vocab[t]? = some piece → Spells blank piece t → ' ' ∉ piece.tail)
    (tokens : List ℕ) :
    Spelt (pieces vocab blank) (emitted vocab blank tokens) ∧
      ∃ p, bias.prefixes[bias.after tokens]? = some p ∧
        LongestSuffix (Live U upper keywords vocab blank) (emitted vocab blank tokens) p := by
  induction tokens using List.reverseRecOn with
  | nil =>
    exact ⟨Spelt.nil, [], h.root, h.live_nil, List.suffix_rfl, fun q _ hq => hq⟩
  | append_singleton tokens t ih =>
    obtain ⟨htext, p, hp, hlongest⟩ := ih
    have hemitted : emitted vocab blank (tokens ++ [t]) =
        emit vocab blank (emitted vocab blank tokens) t := by
      simp [emitted]
    rw [hemitted, after_concat]
    by_cases hpiece : ∃ piece, vocab[t]? = some piece ∧ Spells blank piece t
    · obtain ⟨w, hw, hspells⟩ := hpiece
      obtain ⟨first, hget⟩ := get?_of_spells hw hspells
      obtain ⟨hfirst, hspells'⟩ := spells_of_get? hget
      obtain rfl := hdistinct _ _ _ hw hfirst hspells hspells'
      have hemit : emit vocab blank (emitted vocab blank tokens) t =
          emitted vocab blank tokens ++ w := by
        simp [emit, hw, hspells]
      rw [hemit]
      refine ⟨htext.append (Spelt.piece hspells.1 hget), ?_⟩
      exact h.advance_piece hp hlongest hget fun r hlive hsuffix hne =>
        live_split hspace htext hget hlive hsuffix hne
    · -- the token spells nothing: back to the root
      have hemit : emit vocab blank (emitted vocab blank tokens) t = [] := by
        unfold emit
        cases hw : vocab[t]? with
        | none => rfl
        | some w => exact if_neg fun hspells => hpiece ⟨w, hw, hspells⟩
      have hroot := h.advance_other (s := bias.after tokens) (t := t) fun w hget =>
        hpiece ⟨w, spells_of_get? hget⟩
      rw [hemit, hroot]
      exact ⟨Spelt.nil, [], h.root, h.live_nil, List.suffix_rfl, fun q _ hq => hq⟩

/-- **The automaton tracks the longest live match.** After any tokens its state is the longest text
on a keyword's path with which the emitted text ends; the first link of each state leads to its
longest proper suffix on a path; and the tokens that are boosted are those that extend a live
match. -/
theorem keywordBias_tracks
    (hbias : keywordBias U upper keywords vocab blank boostPerChar = some bias)
    (hdistinct : ∀ t t' piece, vocab[t]? = some piece → vocab[t']? = some piece →
      Spells blank piece t → Spells blank piece t' → t = t')
    (hspace : ∀ t piece, vocab[t]? = some piece → Spells blank piece t → ' ' ∉ piece.tail)
    (tokens : List ℕ) :
    (∃ p, bias.prefixes[bias.after tokens]? = some p ∧
      LongestSuffix (Live U upper keywords vocab blank) (emitted vocab blank tokens) p) ∧
    (∀ (s f : ℕ) (p : Text), bias.prefixes[s]? = some p →
      ((bias.fallbacks s).head? = some f ↔ ∃ q, bias.prefixes[f]? = some q ∧
        LongestSuffix (fun q => Live U upper keywords vocab blank q ∧ q ≠ p) p q)) ∧
    ∀ t, t ∈ (bias.offer (bias.after tokens)).map Prod.fst ↔
      ∃ q w, Live U upper keywords vocab blank q ∧ q <:+ emitted vocab blank tokens ∧
        vocab[t]? = some w ∧ Spells blank w t ∧ Live U upper keywords vocab blank (q ++ w) := by
  have h := automaton_of_keywordBias hbias
  obtain ⟨-, p, hp, hlongest⟩ := h.after hdistinct hspace tokens
  refine ⟨⟨p, hp, hlongest⟩, fun s f p hs => h.head_fallbacks hs, fun t => ?_⟩
  rw [h.mem_offer hp hlongest]
  refine exists_congr fun q => exists_congr fun w => and_congr_right fun _ =>
    and_congr_right fun _ => ?_
  rw [← and_assoc]
  refine and_congr_left fun _ => ?_
  constructor
  · exact spells_of_get?
  · rintro ⟨hw, hspells⟩
    obtain ⟨first, hget⟩ := get?_of_spells hw hspells
    obtain ⟨hfirst, hspells'⟩ := spells_of_get? hget
    rw [hget, hdistinct _ _ _ hw hfirst hspells hspells']

end Automaton

/-! ## Two vocabularies -/

def upperAscii (c : Char) : Text := [c.toUpper]

/-- A vocabulary in which one keyword's second word starts another keyword. -/
def newYork : List Text :=
  [[' ', 'N'], ['e', 'w'], [' ', 'Y', 'o', 'r', 'k'], [' ', 'Y'], ['a', 'k'],
    ['<', 'b', 'l', 'k', '>']]

/-- "New York" breaks the match of "New Yak" and starts the one of "York". -/
theorem newYork_tracked : ∃ bias,
    keywordBias .ascii upperAscii
      [['N', 'e', 'w', ' ', 'Y', 'a', 'k'], ['Y', 'o', 'r', 'k']] newYork 5 3 = some bias ∧
    ∃ p, bias.prefixes[bias.after [0, 1, 2]]? = some p ∧
      LongestSuffix (Live .ascii upperAscii
        [['N', 'e', 'w', ' ', 'Y', 'a', 'k'], ['Y', 'o', 'r', 'k']] newYork 5)
        (emitted newYork 5 [0, 1, 2]) p := by
  cases hbias : keywordBias .ascii upperAscii
      [['N', 'e', 'w', ' ', 'Y', 'a', 'k'], ['Y', 'o', 'r', 'k']] newYork 5 3 with
  | none => exact absurd hbias (by decide +kernel)
  | some bias =>
    refine ⟨bias, rfl, (keywordBias_tracks hbias ?_ ?_ [0, 1, 2]).1⟩
    · intro t t' piece ht ht' _ _
      exact getElem?_inj_of_nodup (by decide) ht ht'
    · intro t piece ht _
      have hall : ∀ piece ∈ newYork, ' ' ∉ piece.tail := by decide
      exact hall piece (List.mem_of_getElem? ht)

/-- A vocabulary whose other pieces spell the text of a special token. -/
def unknown : List Text :=
  [['<', 'u', 'n', 'k', '>'], [' '], ['<'], ['u', 'n', 'k'], ['>'], ['<', 'b', 'l', 'k', '>']]

/-- A special token breaks the match that its text would complete. -/
theorem special_breaks : unknown.Nodup ∧ (∀ piece ∈ unknown, ' ' ∉ piece.tail) ∧ ∃ bias,
    keywordBias .ascii upperAscii [['<', 'u', 'n', 'k', '>']] unknown 5 3 = some bias ∧
    ¬ ∃ p, bias.prefixes[bias.after [1, 0]]? = some p ∧
      LongestSuffix (Live .ascii upperAscii [['<', 'u', 'n', 'k', '>']] unknown 5)
        ([1, 0].flatMap (word unknown)) p := by
  refine ⟨by decide, by decide, ?_⟩
  have hroot : (keywordBias .ascii upperAscii [['<', 'u', 'n', 'k', '>']] unknown 5 3).map
      (fun bias => bias.prefixes[bias.after [1, 0]]?) = some (some []) := by decide +kernel
  obtain ⟨bias, hbias, hstate⟩ := Option.map_eq_some_iff.mp hroot
  refine ⟨bias, hbias, ?_⟩
  rintro ⟨p, hp, hlongest⟩
  obtain rfl : [] = p := Option.some.inj (hstate.symm.trans hp)
  have hpieces : ∀ w ∈ [[' '], ['<'], ['u', 'n', 'k'], ['>']],
      w ≠ [] ∧ ∃ t, (pieces unknown 5).get? w = some t := by
    intro w hw
    refine ⟨?_, Option.isSome_iff_exists.mp ?_⟩ <;> revert w <;> decide
  have hlive : Live .ascii upperAscii [['<', 'u', 'n', 'k', '>']] unknown 5
      ([1, 0].flatMap (word unknown)) :=
    ⟨[1, 0].flatMap (word unknown), by decide, [], rfl, ⟨_, hpieces, rfl⟩, Spelt.nil⟩
  have := hlongest.longest _ hlive List.suffix_rfl
  exact absurd (List.suffix_nil.mp this) (by decide)

end KeywordBias

end Myna

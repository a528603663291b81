import Myna.Testbed.KeywordBias

/-!
# Myna — the states of the keyword automaton

What the loops of `keyword_bias` build, said of the texts alone: a state is the text of the first
pieces of a complete tokenisation, and an edge adds one piece to it.

* **`Spelt`** — a text the pieces spell;
* **`mem_segments`** — a segment lies between a spelt beginning and a spelt end;
* **`OnPath`** — the texts of the states;
* **`Built`** — how the builder's lists hold a set of edges, kept by `stateOf` and `addSegment`;
* **`child_iff`** — the automaton's edges.
-/

namespace Myna

namespace KeywordBias

/-! ## Pieces -/

section Pieces

variable {blank : ℕ}

/-- What the loop over the vocabulary leaves: the first token that spells the piece. -/
theorem get?_addPieces (entries : List (Text × ℕ)) (found : Dict Text ℕ) (piece : Text) :
    Dict.get? (entries.foldl (addPiece blank) found) piece =
      (found.get? piece).or ((entries.find? fun entry =>
        decide (Spells blank entry.1 entry.2 ∧ entry.1 = piece)).map Prod.snd) := by
  induction entries generalizing found with
  | nil => simp
  | cons entry entries ih =>
    rw [List.foldl_cons, ih, List.find?_cons]
    by_cases hspells : Spells blank entry.1 entry.2
    · rw [addPiece, if_pos hspells, Dict.get?_setDefault]
      by_cases hkey : entry.1 = piece
      · subst hkey
        rw [if_pos rfl]
        cases hold : found.get? entry.1 <;> simp [hspells]
      · simp [hkey]
    · rw [addPiece, if_neg hspells]
      simp [hspells]

variable {vocab : List Text} {piece : Text} {tokenId : ℕ}

/-- A piece is mapped to a token of that text which can spell. -/
theorem spells_of_get? (h : (pieces vocab blank).get? piece = some tokenId) :
    vocab[tokenId]? = some piece ∧ Spells blank piece tokenId := by
  rw [pieces, get?_addPieces] at h
  obtain ⟨⟨p, t⟩, hfind, rfl⟩ := Option.map_eq_some_iff.mp h
  have hmem := List.mem_of_find?_eq_some hfind
  have hprop := List.find?_some hfind
  obtain ⟨hspells, rfl⟩ : Spells blank p t ∧ p = piece := by simpa using hprop
  exact ⟨List.mem_zipIdx_iff_getElem?.mp hmem, hspells⟩

/-- A token that can spell has its text among the pieces. -/
theorem get?_of_spells (htext : vocab[tokenId]? = some piece)
    (hspells : Spells blank piece tokenId) :
    ∃ first, (pieces vocab blank).get? piece = some first := by
  have hmem : (piece, tokenId) ∈ vocab.zipIdx := List.mem_zipIdx_iff_getElem?.mpr htext
  rw [pieces, get?_addPieces]
  cases hfind : vocab.zipIdx.find? fun entry =>
      decide (Spells blank entry.1 entry.2 ∧ entry.1 = piece) with
  | some entry => exact ⟨entry.2, rfl⟩
  | none =>
    have := List.find?_eq_none.mp hfind _ hmem
    simp [hspells] at this

end Pieces

/-! ## Segments -/

/-- The pieces spell the text. -/
def Spelt (pieces : Dict Text ℕ) (text : Text) : Prop :=
  ∃ path : List Text, (∀ w ∈ path, w ≠ [] ∧ ∃ t, pieces.get? w = some t) ∧ path.flatten = text

section Segments

variable {pieces : Dict Text ℕ} {spelling : Text}

theorem Spelt.nil : Spelt pieces [] := ⟨[], by simp, rfl⟩

theorem Spelt.append {a b : Text} (ha : Spelt pieces a) (hb : Spelt pieces b) :
    Spelt pieces (a ++ b) := by
  obtain ⟨path, hpath, rfl⟩ := ha
  obtain ⟨more, hmore, rfl⟩ := hb
  refine ⟨path ++ more, ?_, List.flatten_append⟩
  intro w hw
  exact (List.mem_append.mp hw).elim (hpath w) (hmore w)

theorem Spelt.piece {w : Text} {t : ℕ} (hne : w ≠ []) (hget : pieces.get? w = some t) :
    Spelt pieces w :=
  ⟨[w], by simpa using ⟨hne, t, hget⟩, by simp⟩

theorem length_slice {i j : ℕ} (hj : j ≤ spelling.length) :
    (slice spelling i j).length = j - i := by
  simp [slice, hj]

theorem slice_append {i j k : ℕ} (hij : i ≤ j) (hjk : j ≤ k) :
    slice spelling i j ++ slice spelling j k = slice spelling i k := by
  unfold slice
  have hsplit : spelling.take k = spelling.take j ++ (spelling.take k).drop j := by
    conv_lhs => rw [← List.take_append_drop j (spelling.take k), List.take_take,
      Nat.min_eq_left hjk]
  by_cases hlen : j ≤ spelling.length
  · conv_rhs => rw [hsplit]
    rw [List.drop_append_of_le_length (by simp [hlen, hij])]
  · have hall : spelling.take j = spelling.take k := by
      rw [List.take_of_length_le (by omega), List.take_of_length_le (by omega)]
    have hnil : (spelling.take k).drop j = [] := by
      rw [List.drop_eq_nil_iff, List.length_take]
      omega
    rw [hnil, hall, List.append_nil]

@[simp] theorem slice_zero (i : ℕ) : slice spelling 0 i = spelling.take i := rfl

@[simp] theorem slice_length (i : ℕ) : slice spelling i spelling.length = spelling.drop i := by
  simp [slice]

theorem mem_edges {i j t : ℕ} :
    (i, j, t) ∈ edges spelling pieces ↔
      i < j ∧ j ≤ spelling.length ∧ pieces.get? (slice spelling i j) = some t := by
  simp only [edges, List.mem_flatMap, List.mem_range, List.mem_filterMap, List.mem_range'_1,
    Option.map_eq_some_iff, Prod.mk.injEq]
  constructor
  · rintro ⟨i', hi, j', hj, t', hget, rfl, rfl, rfl⟩
    exact ⟨by omega, by omega, hget⟩
  · rintro ⟨hij, hj, hget⟩
    exact ⟨i, by omega, j, by omega, t, hget, rfl, rfl, rfl⟩

/-- The edges stand by their starts. -/
theorem edges_sorted : (edges spelling pieces).Pairwise fun e e' => e.1 ≤ e'.1 := by
  unfold edges
  have hstart : ∀ i, ∀ e ∈ (List.range' (i + 1) (spelling.length - i)).filterMap fun j =>
      (pieces.get? (slice spelling i j)).map fun tokenId => (i, j, tokenId), e.1 = i := by
    intro i e he
    obtain ⟨j, -, hj⟩ := List.mem_filterMap.mp he
    obtain ⟨t, -, rfl⟩ := Option.map_eq_some_iff.mp hj
    rfl
  rw [List.pairwise_flatMap]
  constructor
  · intro i _
    refine List.pairwise_of_forall_mem_list fun e he e' he' => ?_
    rw [hstart i e he, hstart i e' he']
  · refine List.pairwise_lt_range.imp fun {i i'} hlt e he e' he' => ?_
    rw [hstart i e he, hstart i' e' he']
    exact hlt.le

theorem ordered_edges : Reach.Ordered ((edges spelling pieces).map fun e => (e.1, e.2.1)) := by
  constructor
  · rw [List.pairwise_map]
    refine (List.Pairwise.and_mem.mp edges_sorted).imp fun {e e'} h => ?_
    have hle : e.1 ≤ e'.1 := h.2.2
    have hmem := h.2.1
    have hlt : e'.1 < e'.2.1 := (mem_edges.mp hmem).1
    show e'.2.1 ≠ e.1
    omega
  · intro e he
    obtain ⟨e, hmem, rfl⟩ := List.mem_map.mp he
    exact (mem_edges.mp hmem).1.ne'

theorem ordered_reversed :
    Reach.Ordered ((edges spelling pieces).reverse.map fun e => (e.2.1, e.1)) := by
  constructor
  · rw [List.pairwise_map, List.pairwise_reverse]
    refine (List.Pairwise.and_mem.mp edges_sorted).imp fun {e e'} h => ?_
    have hle : e.1 ≤ e'.1 := h.2.2
    have hmem := h.2.1
    have hlt : e'.1 < e'.2.1 := (mem_edges.mp hmem).1
    show e.1 ≠ e'.2.1
    omega
  · intro e he
    obtain ⟨e, hmem, rfl⟩ := List.mem_map.mp he
    exact (mem_edges.mp (List.mem_reverse.mp hmem)).1.ne

/-- A chain of pieces from one place to another spells what lies between. -/
theorem chain_iff {i m : ℕ} (hi : i ≤ spelling.length) :
    Relation.ReflTransGen
        (fun a b => (a, b) ∈ (edges spelling pieces).map fun e => (e.1, e.2.1)) i m ↔
      i ≤ m ∧ m ≤ spelling.length ∧ Spelt pieces (slice spelling i m) := by
  constructor
  · intro h
    induction h with
    | refl => exact ⟨le_rfl, hi, by simpa [slice] using Spelt.nil⟩
    | @tail b c _ hedge ih =>
      obtain ⟨hib, -, hspelt⟩ := ih
      obtain ⟨⟨b', c', t⟩, hmem, hbc⟩ := List.mem_map.mp hedge
      obtain ⟨rfl, rfl⟩ := Prod.mk.inj hbc
      obtain ⟨hlt, hle, hget⟩ := mem_edges.mp hmem
      refine ⟨hib.trans hlt.le, hle, ?_⟩
      rw [← slice_append hib hlt.le]
      refine hspelt.append (Spelt.piece ?_ hget)
      rw [← List.length_pos_iff, length_slice hle]
      omega
  · rintro ⟨him, hm, path, hpath, hflat⟩
    induction path generalizing i with
    | nil =>
      have hlen : (slice spelling i m).length = 0 := by rw [← hflat]; rfl
      rw [length_slice hm] at hlen
      obtain rfl : i = m := by omega
      exact Relation.ReflTransGen.refl
    | cons w path ih =>
      obtain ⟨hne, t, hget⟩ := hpath w (by simp)
      have hpos := List.length_pos_iff.mpr hne
      rw [List.flatten_cons] at hflat
      have hlen : w.length + path.flatten.length = m - i := by
        rw [← length_slice hm, ← hflat, List.length_append]
      have hmid := @slice_append spelling i (i + w.length) m (by omega) (by omega)
      obtain ⟨hw, hrest⟩ := List.append_inj (hflat.trans hmid.symm) (by
        rw [length_slice (by omega)]
        omega)
      refine Relation.ReflTransGen.head ?_ (ih (by omega) (by omega)
        (fun w' hw' => hpath w' (List.mem_cons_of_mem _ hw')) hrest)
      refine List.mem_map.mpr ⟨(i, i + w.length, t), mem_edges.mpr ⟨by omega, by omega, ?_⟩, rfl⟩
      rw [← hw]
      exact hget

/-- The first loop finds where a tokenisation gets from the start. -/
theorem mem_reached {i : ℕ} (hi : i ≤ spelling.length) :
    i ∈ reached (edges spelling pieces) ↔ Spelt pieces (spelling.take i) := by
  rw [reached, Reach.mem_reach_iff ordered_edges, chain_iff (Nat.zero_le _)]
  simp [hi]

/-- The second loop finds from where a tokenisation gets to the end. -/
theorem mem_finishing {j : ℕ} (hj : j ≤ spelling.length) :
    j ∈ finishing spelling.length (edges spelling pieces) ↔ Spelt pieces (spelling.drop j) := by
  have hswap : ∀ a b, (a, b) ∈ ((edges spelling pieces).reverse.map fun e => (e.2.1, e.1)) ↔
      (b, a) ∈ (edges spelling pieces).map fun e => (e.1, e.2.1) := by
    intro a b
    simp only [List.mem_map, List.mem_reverse, Prod.mk.injEq]
    exact exists_congr fun e => and_congr_right fun _ => and_comm
  rw [finishing, Reach.mem_reach_iff ordered_reversed]
  simp only [hswap]
  rw [← Relation.reflTransGen_swap]
  show Relation.ReflTransGen (fun a b => (a, b) ∈ _) j spelling.length ↔ _
  rw [chain_iff hj]
  simp [hj]

/-- **A segment is a piece between a spelt beginning and a spelt end.** -/
theorem mem_segments {i j t : ℕ} :
    (i, j, t) ∈ segments spelling pieces ↔
      (i < j ∧ j ≤ spelling.length ∧ pieces.get? (slice spelling i j) = some t) ∧
        Spelt pieces (spelling.take i) ∧ Spelt pieces (spelling.drop j) := by
  unfold segments
  rw [List.mem_filter, mem_edges]
  refine and_congr_right fun h => ?_
  rw [decide_eq_true_iff, mem_reached (h.1.le.trans h.2.1), mem_finishing h.2.1]

end Segments

/-! ## The builder -/

/-- The texts of the states that a list of edges (a state, a token and the state it leads to)
mentions. -/
def Mentioned (log : List (Text × ℕ × Text)) (p : Text) : Prop :=
  p = [] ∨ ∃ e ∈ log, p = e.1 ∨ p = e.2.2

/-- The builder holds the states `names` and the edges `log`; a token adds its `word`. -/
structure Built (word : ℕ → Text) (names : Text → Prop) (log : List (Text × ℕ × Text))
    (b : Builder) : Prop where
  nodup : b.prefixes.Nodup
  root : b.prefixes[ROOT]? = some []
  length : b.children.length = b.prefixes.length
  mem_prefixes : ∀ p, p ∈ b.prefixes ↔ names p
  mentioned : ∀ p, Mentioned log p → names p
  word : ∀ e ∈ log, e.2.2 = e.1 ++ word e.2.1
  child : ∀ s t target, lookup b.children s t = some target ↔
    ∃ p q, b.prefixes[s]? = some p ∧ b.prefixes[target]? = some q ∧ (p, t, q) ∈ log

section Build

variable {word : ℕ → Text} {names : Text → Prop} {log : List (Text × ℕ × Text)} {b : Builder}
  {p : Text}

theorem built_init : Built word (Mentioned []) [] {} := by
  refine ⟨by simp, rfl, rfl, by simp [Mentioned], fun _ h => h, by simp, ?_⟩
  intro s t target
  cases s <;> simp [lookup, Dict.get?]

theorem getElem?_inj_of_nodup {α : Type*} {l : List α} (hnodup : l.Nodup) {i j : ℕ} {a : α}
    (hi : l[i]? = some a) (hj : l[j]? = some a) : i = j :=
  (List.getElem?_inj (List.getElem?_eq_some_iff.mp hi).1 hnodup).mp (hi.trans hj.symm)

theorem Built.index_eq_some (h : Built word names log b) {s : ℕ} :
    b.index p = some s ↔ b.prefixes[s]? = some p := by
  unfold Builder.index
  rw [List.idxOf?_eq_some_iff]
  constructor
  · rintro ⟨hlt, hget, -⟩
    rw [List.getElem?_eq_getElem hlt, hget]
  · intro hget
    obtain ⟨hlt, hs⟩ := List.getElem?_eq_some_iff.mp hget
    refine ⟨hlt, hs, fun j hj heq => ?_⟩
    have hgetj : b.prefixes[j]? = some p := by
      rw [List.getElem?_eq_getElem (hj.trans hlt), heq]
    exact hj.ne (getElem?_inj_of_nodup h.nodup hgetj hget)

/-- **`state_of` finds the state of a text, or makes it.** -/
theorem Built.stateOf (h : Built word names log b) (p : Text) :
    Built word (fun q => names q ∨ q = p) log (b.stateOf p).1 ∧
      (b.stateOf p).1.prefixes[(b.stateOf p).2]? = some p ∧
      (∀ (s : ℕ) q, b.prefixes[s]? = some q → (b.stateOf p).1.prefixes[s]? = some q) ∧
      (b.stateOf p).1.complete = b.complete := by
  unfold Builder.stateOf
  cases hindex : b.index p with
  | some state =>
    have hget := h.index_eq_some.mp hindex
    refine ⟨{ h with mem_prefixes := fun q => ?_, mentioned := ?_ }, hget, fun _ _ hq => hq, rfl⟩
    · rw [h.mem_prefixes]
      constructor
      · exact .inl
      · rintro (hq | rfl)
        · exact hq
        · exact (h.mem_prefixes _).mp (List.mem_of_getElem? hget)
    · exact fun q hq => .inl (h.mentioned q hq)
  | none =>
    have hnew : p ∉ b.prefixes := List.idxOf?_eq_none_iff.mp hindex
    have hkeep : ∀ (s : ℕ) q, b.prefixes[s]? = some q → (b.prefixes ++ [p])[s]? = some q := by
      intro s q hq
      rw [List.getElem?_append_left (List.getElem?_eq_some_iff.mp hq).1, hq]
    have hold : ∀ (s : ℕ) q, names q → (b.prefixes ++ [p])[s]? = some q →
      b.prefixes[s]? = some q := by
      intro s q hq hget
      by_cases hs : s < b.prefixes.length
      · rwa [List.getElem?_append_left hs] at hget
      · rw [List.getElem?_append_right (by omega), List.getElem?_singleton] at hget
        split at hget
        · obtain rfl : p = q := Option.some.inj hget
          exact absurd ((h.mem_prefixes _).mpr hq) hnew
        · cases hget
    refine ⟨?_, by simp, hkeep, rfl⟩
    constructor
    · show (b.prefixes ++ [p]).Nodup
      rw [List.nodup_append_comm]
      exact List.nodup_cons.mpr ⟨hnew, h.nodup⟩
    · exact hkeep _ _ h.root
    · show (b.children ++ [[]]).length = (b.prefixes ++ [p]).length
      simp [h.length]
    · intro q
      show q ∈ b.prefixes ++ [p] ↔ _
      rw [List.mem_append, List.mem_singleton, h.mem_prefixes]
    · exact fun q hq => .inl (h.mentioned q hq)
    · exact h.word
    · intro s t target
      show lookup (b.children ++ [[]]) s t = some target ↔ _
      -- the new state has no children yet
      have hchild : lookup (b.children ++ [[]]) s t = lookup b.children s t := by
        unfold lookup
        by_cases hs : s < b.children.length
        · rw [List.getElem?_append_left hs]
        · rw [List.getElem?_append_right (by omega), List.getElem?_singleton,
            List.getElem?_eq_none (by omega)]
          split <;> rfl
      rw [hchild, h.child]
      constructor
      · rintro ⟨q, r, hq, hr, hmem⟩
        exact ⟨q, r, hkeep _ _ hq, hkeep _ _ hr, hmem⟩
      · rintro ⟨q, r, hq, hr, hmem⟩
        exact ⟨q, r, hold _ _ (h.mentioned _ (.inr ⟨_, hmem, .inl rfl⟩)) hq,
          hold _ _ (h.mentioned _ (.inr ⟨_, hmem, .inr rfl⟩)) hr, hmem⟩

theorem mentioned_concat {e : Text × ℕ × Text} {q : Text} :
    Mentioned (log ++ [e]) q ↔ (Mentioned log q ∨ q = e.2.2) ∨ q = e.1 := by
  unfold Mentioned
  simp only [List.mem_append, List.mem_singleton]
  constructor
  · rintro (rfl | ⟨e', hmem | rfl, hq⟩)
    · exact .inl (.inl (.inl rfl))
    · exact .inl (.inl (.inr ⟨e', hmem, hq⟩))
    · exact hq.elim .inr fun hq => .inl (.inr hq)
  · rintro (((rfl | ⟨e', hmem, hq⟩) | rfl) | rfl)
    · exact .inl rfl
    · exact .inr ⟨e', .inl hmem, hq⟩
    · exact .inr ⟨e, .inr rfl, .inr rfl⟩
    · exact .inr ⟨e, .inr rfl, .inl rfl⟩

/-- The edge that a segment of a spelling makes. -/
def edgeOf (spelling : Text) (e : ℕ × ℕ × ℕ) : Text × ℕ × Text :=
  (spelling.take e.1, e.2.2, spelling.take e.2.1)

/-- **A segment adds its edge.** -/
theorem Built.addSegment (h : Built word (Mentioned log) log b) {spelling : Text}
    {e : ℕ × ℕ × ℕ} (hword : spelling.take e.2.1 = spelling.take e.1 ++ word e.2.2) :
    Built word (Mentioned (log ++ [edgeOf spelling e])) (log ++ [edgeOf spelling e])
        (b.addSegment spelling e) ∧
      (b.addSegment spelling e).complete = b.complete := by
  obtain ⟨htarget, hgetTarget, -, hcomplete⟩ := h.stateOf (spelling.take e.2.1)
  obtain ⟨hsource, hgetSource, hkeep, hcomplete'⟩ := htarget.stateOf (spelling.take e.1)
  simp only [Builder.addSegment]
  generalize b.stateOf (spelling.take e.2.1) = target at *
  have hgetTarget' := hkeep _ _ hgetTarget
  generalize target.1.stateOf (spelling.take e.1) = source at *
  refine ⟨⟨hsource.nodup, hsource.root, ?_, ?_, fun _ hq => hq, ?_, ?_⟩, ?_⟩
  · simpa using hsource.length
  · intro q
    rw [hsource.mem_prefixes, mentioned_concat]
    rfl
  · intro e' he'
    rcases List.mem_append.mp he' with hmem | hmem
    · exact h.word _ hmem
    · obtain rfl := List.mem_singleton.mp hmem
      exact hword
  · intro s t goal
    show lookup (source.1.children.modify source.2 fun child => child.set e.2.2 target.2) s t =
      some goal ↔ _
    by_cases hhit : source.2 = s ∧ e.2.2 = t
    · -- the entry that is set: the token leads nowhere else
      obtain ⟨rfl, rfl⟩ := hhit
      have hlt : source.2 < source.1.children.length := by
        rw [hsource.length]
        exact (List.getElem?_eq_some_iff.mp hgetSource).1
      rw [lookup, List.getElem?_modify_eq, List.getElem?_eq_getElem hlt]
      simp only [Option.map_eq_map, Option.map_some, Option.bind_some, Dict.get?_set, if_pos]
      constructor
      · rintro hgoal
        obtain rfl : target.2 = goal := Option.some.inj hgoal
        exact ⟨_, _, hgetSource, hgetTarget', List.mem_append_right _ (List.mem_singleton.mpr rfl)⟩
      · rintro ⟨q, r, hq, hr, hmem⟩
        obtain rfl : spelling.take e.1 = q := Option.some.inj (hgetSource.symm.trans hq)
        have hr' : r = spelling.take e.2.1 := by
          rcases List.mem_append.mp hmem with hmem | hmem
          · rw [hword]
            exact h.word _ hmem
          · exact congrArg (·.2.2) (List.mem_singleton.mp hmem)
        subst hr'
        rw [getElem?_inj_of_nodup hsource.nodup hgetTarget' hr]
    · have hsame : lookup (source.1.children.modify source.2 fun child =>
          child.set e.2.2 target.2) s t = lookup source.1.children s t := by
        unfold lookup
        by_cases hs : source.2 = s
        · subst hs
          rw [List.getElem?_modify_eq]
          cases source.1.children[source.2]? with
          | none => rfl
          | some child =>
            show Dict.get? (child.set e.2.2 target.2) t = Dict.get? child t
            rw [Dict.get?_set, if_neg fun ht => hhit ⟨rfl, ht⟩]
        · rw [List.getElem?_modify_ne _ _ hs]
      rw [hsame, hsource.child]
      refine exists_congr fun q => exists_congr fun r => ?_
      refine and_congr_right fun hq => and_congr_right fun _ => ?_
      rw [List.mem_append, List.mem_singleton]
      refine (or_iff_left ?_).symm
      intro heq
      obtain ⟨rfl, rfl, rfl⟩ : q = spelling.take e.1 ∧ t = e.2.2 ∧ r = spelling.take e.2.1 := by
        simpa [edgeOf] using heq
      exact hhit ⟨getElem?_inj_of_nodup hsource.nodup hgetSource hq, rfl⟩
  · exact hcomplete'.trans hcomplete

/-- The segments of a spelling add their edges, in order. -/
theorem Built.addSegments {spelling : Text} : ∀ (segs : List (ℕ × ℕ × ℕ)) {log b},
    Built word (Mentioned log) log b →
      (∀ e ∈ segs, spelling.take e.2.1 = spelling.take e.1 ++ word e.2.2) →
      Built word (Mentioned (log ++ segs.map (edgeOf spelling))) (log ++ segs.map (edgeOf spelling))
          (segs.foldl (Builder.addSegment spelling) b) ∧
        (segs.foldl (Builder.addSegment spelling) b).complete = b.complete
  | [], log, b, h, _ => by simpa using h
  | e :: segs, log, b, h, hword => by
    obtain ⟨hone, hcomplete⟩ := h.addSegment (hword e (by simp))
    obtain ⟨hall, hcomplete'⟩ := hone.addSegments segs fun e' he' =>
      hword e' (List.mem_cons_of_mem _ he')
    refine ⟨?_, hcomplete'.trans hcomplete⟩
    simpa using hall

end Build

/-! ## The automaton -/

section Automaton

variable {vocab : List Text} {blank : ℕ}

/-- The edges of the spellings, in the order in which they come in. -/
def edgesOf (pieces : Dict Text ℕ) (spellings : List Text) : List (Text × ℕ × Text) :=
  spellings.flatMap fun spelling => (segments spelling pieces).map (edgeOf spelling)

/-- The text of a token. -/
def word (vocab : List Text) (tokenId : ℕ) : Text := (vocab[tokenId]?).getD []

theorem word_of_get? {piece : Text} {t : ℕ} (h : (pieces vocab blank).get? piece = some t) :
    word vocab t = piece := by
  rw [word, (spells_of_get? h).1]
  rfl

theorem segment_word {spelling : Text} {e : ℕ × ℕ × ℕ}
    (h : e ∈ segments spelling (pieces vocab blank)) :
    spelling.take e.2.1 = spelling.take e.1 ++ word vocab e.2.2 := by
  obtain ⟨i, j, t⟩ := e
  obtain ⟨⟨hij, -, hget⟩, -⟩ := mem_segments.mp h
  rw [word_of_get? hget]
  exact (slice_append (Nat.zero_le i) hij.le).symm

/-- **The builder after the spellings**: their edges, and the states of those that can be spelt. -/
theorem built_spellings : ∀ (spellings : List Text) {log b},
    Built (word vocab) (Mentioned log) log b →
      Built (word vocab) (Mentioned (log ++ edgesOf (pieces vocab blank) spellings))
          (log ++ edgesOf (pieces vocab blank) spellings)
          (spellings.foldl (Builder.addSpelling (pieces vocab blank)) b)
  | [], log, b, h => by simpa [edgesOf] using h
  | spelling :: spellings, log, b, h => by
    obtain ⟨hone, -⟩ := h.addSegments (segments spelling (pieces vocab blank))
      fun e he => segment_word he
    have hadd : Built (word vocab)
        (Mentioned (log ++ (segments spelling (pieces vocab blank)).map (edgeOf spelling)))
        (log ++ (segments spelling (pieces vocab blank)).map (edgeOf spelling))
        (b.addSpelling (pieces vocab blank) spelling) := by
      unfold Builder.addSpelling
      split
      · exact hone
      · exact { hone with }
    have hall := built_spellings spellings hadd
    simpa [edgesOf] using hall

/-- `p` is the text of the first pieces of a complete tokenisation of a spelling. -/
def OnPath (pieces : Dict Text ℕ) (spellings : List Text) (p : Text) : Prop :=
  ∃ spelling ∈ spellings, ∃ rest, spelling = p ++ rest ∧ Spelt pieces p ∧ Spelt pieces rest

/-- The edges lead from a text on a path to the one with one more piece. -/
theorem mem_edgesOf {spellings : List Text} {p q : Text} {t : ℕ} :
    (p, t, q) ∈ edgesOf (pieces vocab blank) spellings ↔
      OnPath (pieces vocab blank) spellings p ∧ OnPath (pieces vocab blank) spellings q ∧
        ∃ w, (pieces vocab blank).get? w = some t ∧ q = p ++ w := by
  constructor
  · intro h
    obtain ⟨spelling, hin, hmem⟩ := List.mem_flatMap.mp h
    obtain ⟨⟨i, j, t'⟩, hseg, heq⟩ := List.mem_map.mp hmem
    obtain ⟨rfl, rfl, rfl⟩ : spelling.take i = p ∧ t' = t ∧ spelling.take j = q := by
      simpa [edgeOf] using heq
    obtain ⟨⟨hij, hj, hget⟩, hstart, hend⟩ := mem_segments.mp hseg
    have hpiece : Spelt (pieces vocab blank) (slice spelling i j) :=
      Spelt.piece (spells_of_get? hget).2.1 hget
    have hsplit : spelling.take j = spelling.take i ++ slice spelling i j :=
      (slice_append (Nat.zero_le i) hij.le).symm
    have hrest : spelling.drop i = slice spelling i j ++ spelling.drop j := by
      rw [← slice_length i, ← slice_append hij.le hj, slice_length]
    refine ⟨⟨spelling, hin, spelling.drop i, (List.take_append_drop _ _).symm, hstart, ?_⟩,
      ⟨spelling, hin, spelling.drop j, (List.take_append_drop _ _).symm, ?_, hend⟩,
      slice spelling i j, hget, hsplit⟩
    · rw [hrest]
      exact hpiece.append hend
    · rw [hsplit]
      exact hstart.append hpiece
  · rintro ⟨⟨-, -, -, -, hp, -⟩, ⟨spelling, hin, rest, rfl, hq, hrest⟩, w, hget, rfl⟩
    have hpos := List.length_pos_iff.mpr (spells_of_get? hget).2.1
    refine List.mem_flatMap.mpr ⟨_, hin, List.mem_map.mpr
      ⟨(p.length, p.length + w.length, t), mem_segments.mpr ⟨⟨by omega, by simp, ?_⟩, ?_, ?_⟩, ?_⟩⟩
    · simpa [slice, List.take_append, List.drop_append] using hget
    · simpa using hp
    · rw [← List.length_append, List.drop_left]
      exact hrest
    · simp [edgeOf, List.take_append]

/-- The states are the texts on a path, and the root. -/
theorem mentioned_edgesOf {spellings : List Text} {p : Text} :
    Mentioned (edgesOf (pieces vocab blank) spellings) p ↔
      p = [] ∨ OnPath (pieces vocab blank) spellings p := by
  constructor
  · rintro (rfl | ⟨⟨q, t, r⟩, hmem, rfl | rfl⟩)
    · exact .inl rfl
    · exact .inr (mem_edgesOf.mp hmem).1
    · exact .inr (mem_edgesOf.mp hmem).2.1
  · rintro (rfl | hpath)
    · exact .inl rfl
    · obtain ⟨spelling, hin, rest, rfl, ⟨path, hpieces, rfl⟩, hrest⟩ := hpath
      rcases List.eq_nil_or_concat' path with rfl | ⟨start, w, rfl⟩
      · exact .inl rfl
      · -- the edge by the last piece leads here
        obtain ⟨hne, t, hget⟩ := hpieces w (by simp)
        have hstart : Spelt (pieces vocab blank) start.flatten :=
          ⟨start, fun w' hw' => hpieces w' (by simp [hw']), rfl⟩
        refine .inr ⟨(start.flatten, t, (start ++ [w]).flatten),
          mem_edgesOf.mpr ⟨?_, ?_, w, hget, ?_⟩,
          .inr rfl⟩
        · exact ⟨_, hin, w ++ rest, by simp, hstart, (Spelt.piece hne hget).append hrest⟩
        · exact ⟨_, hin, rest, rfl, ⟨_, hpieces, rfl⟩, hrest⟩
        · simp

end Automaton

end KeywordBias

end Myna

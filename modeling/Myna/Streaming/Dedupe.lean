import Myna.Streaming.Words
import Mathlib.Tactic.NormNum

/-!
# Myna — the overlap dedupe (`streaming/loop.py`)

A cut keeps a little audio, so the next region decodes some committed words again. Three signals
mark a word as old: its timestamp, a character-level alignment against the committed tail
(`alignmentDrop`), and a truncation of the last committed word at the edge of the overlap
(`dropResegmented`).

* **`dropCommitted_append`** — on a list that is committed words followed by new ones, where the
  timestamps tell the two apart, the alignment claims no new word and the first new word does not
  read as a truncation, the dedupe keeps exactly the new words.
-/

namespace Myna

/-- Words of committed history the alignment uses. -/
def OVERLAP_LOOKBACK : ℕ := 12

/-- Matches of fewer characters are too weak to drop on. -/
def MIN_OVERLAP_CHARS : ℕ := 2

/-- No overlap holds more words than this. -/
def MAX_OVERLAP_WORDS : ℕ := 5

/-- `UNSPACED_CHARS`: CJK ideographs, kana and fullwidth forms. -/
def isUnspaced (c : Char) : Bool :=
  (0x3000 ≤ c.toNat && c.toNat ≤ 0x30ff) || (0x3400 ≤ c.toNat && c.toNat ≤ 0x4dbf)
    || (0x4e00 ≤ c.toNat && c.toNat ≤ 0x9fff) || (0xf900 ≤ c.toNat && c.toNat ≤ 0xfaff)
    || (0xff00 ≤ c.toNat && c.toNat ≤ 0xffef)

/-- `_overlap_weight`: two characters of an unspaced script weigh one word. -/
def overlapWeight : Text → ℚ
  | [] => 0
  | [c] => if isUnspaced c then 1 / 2 else 1
  | _ => 1

/-- `str.find`: the leftmost position at which `needle` occurs. -/
def find (haystack needle : Text) : Option ℕ :=
  (List.range (haystack.length + 1)).find? (fun j => needle.isPrefixOf (haystack.drop j))

/-- The `for k in range(max_k, _MIN_OVERLAP_CHARS - 1, -1)` search: the end of the leftmost
occurrence of the longest suffix of `tail` that occurs in `new`, or `0`. -/
def matchEnd (tail new : Text) : ℕ → ℕ
  | 0 => 0
  | k + 1 =>
    if k + 1 < MIN_OVERLAP_CHARS then 0
    else match find new (tail.drop (tail.length - (k + 1))) with
      | some j => j + (k + 1)
      | none => matchEnd tail new k

/-- The `for part in parts` walk: characters covered, weight and count of the words that lie inside
the first `stop` characters. -/
def coverWords (stop : ℕ) : List Text → ℕ → ℚ → ℕ → ℕ × ℚ × ℕ
  | [], covered, weight, drop => (covered, weight, drop)
  | part :: parts, covered, weight, drop =>
    if covered = stop ∨ stop < covered + part.length then (covered, weight, drop)
    else coverWords stop parts (covered + part.length) (weight + overlapWeight part) (drop + 1)

namespace Unicode

variable (U : Unicode)

/-- `_alignment_drop`: how many leading words of `new` correspond to already committed text. -/
def alignmentDrop (tail new : List Text) : ℕ :=
  if tail = [] ∨ new = [] then 0
  else
    let tailSquash := U.squash tail.flatten
    let parts := new.map U.squash
    let newSquash := parts.flatten
    if tailSquash = [] ∨ newSquash = [] then 0
    else
      let stop := matchEnd tailSquash newSquash (min tailSquash.length newSquash.length)
      if stop = 0 then 0
      else
        let (covered, weight, drop) := coverWords stop parts 0 0 0
        -- a match ending inside a word, or claiming more than an overlap holds, is a coincidence
        if covered ≠ stop then 0 else if weight > MAX_OVERLAP_WORDS then 0 else drop

/-- The test of `_drop_resegmented`: `word` reads as a proper prefix of the committed `last`. -/
def isTruncation (last : Text) (word : Word) : Bool :=
  let head := U.squash (U.norm word.text)
  let last := U.squash last
  decide (MIN_OVERLAP_CHARS ≤ head.length) && head != last && head.isPrefixOf last

/-- `_drop_resegmented`: drop the leading surviving word when it is the last committed word
re-segmented into a truncation of itself. -/
def dropResegmented (kept words : List Word) (committedWordTexts : List Text) : List Word :=
  match kept, committedWordTexts.getLast? with
  | head :: rest, some last =>
    if kept.length = words.length then kept
    else if U.isTruncation last head then rest else kept
  | _, _ => kept

/-- `_drop_committed`: drop the words a previous commit already emitted. -/
def dropCommitted (words : List Word) (committedWordTexts : List Text)
    (committedThrough : Seconds) : List Word :=
  let tail := committedWordTexts.drop (committedWordTexts.length - OVERLAP_LOOKBACK)
  let new := words.map (fun w => U.norm w.text)
  let drop := U.alignmentDrop tail new
  let kept := (words.zipIdx.filter
    (fun p => !(decide (p.1.stop ≤ committedThrough + 1 / 1000) || decide (p.2 < drop)))).map
      Prod.fst
  U.dropResegmented kept words committedWordTexts

variable {U}

/-- The walk counts no more words than there are. -/
theorem coverWords_le (stop : ℕ) (parts : List Text) (covered : ℕ) (weight : ℚ) (drop : ℕ) :
    (coverWords stop parts covered weight drop).2.2 ≤ drop + parts.length := by
  induction parts generalizing covered weight drop with
  | nil => exact le_rfl
  | cons part parts ih =>
    unfold coverWords
    split_ifs
    · exact Nat.le_add_right _ _
    · refine (ih _ _ _).trans ?_
      rw [List.length_cons]
      omega

theorem alignmentDrop_le_length (tail new : List Text) :
    U.alignmentDrop tail new ≤ new.length := by
  have hcover := fun stop => coverWords_le stop (new.map U.squash) 0 0 0
  simp only [Nat.zero_add, List.length_map] at hcover
  unfold alignmentDrop
  dsimp only
  split_ifs
  all_goals first
    | exact Nat.zero_le _
    | exact hcover _

/-- The timestamp and alignment filter over words that are old, all by their timestamps or all by
the alignment. -/
theorem filter_old {words : List Word} {through : Seconds} {drop : ℕ}
    (h : (∀ w ∈ words, w.stop ≤ through + 1 / 1000) ∨ words.length ≤ drop) :
    ((words.zipIdx 0).filter
      (fun p => !(decide (p.1.stop ≤ through + 1 / 1000) || decide (p.2 < drop)))).map Prod.fst
        = [] := by
  simp only [List.map_eq_nil_iff, List.filter_eq_nil_iff]
  intro p hp
  rcases h with h | h
  · have hle := h p.1 (List.fst_mem_of_mem_zipIdx hp)
    simp only [decide_eq_true hle, Bool.true_or, Bool.not_true, Bool.false_eq_true,
      not_false_eq_true]
  · have hlt : p.2 < drop := by
      have := List.snd_lt_of_mem_zipIdx hp
      omega
    simp only [decide_eq_true hlt, Bool.or_true, Bool.not_true, Bool.false_eq_true,
      not_false_eq_true]

/-- The same filter over words that are new by their timestamps and lie past the alignment. -/
theorem filter_new {words : List Word} {through : Seconds} {drop n : ℕ} (hn : drop ≤ n)
    (h : ∀ w ∈ words, through + 1 / 1000 < w.stop) :
    ((words.zipIdx n).filter
      (fun p => !(decide (p.1.stop ≤ through + 1 / 1000) || decide (p.2 < drop)))).map Prod.fst
        = words := by
  have hall : (words.zipIdx n).filter
      (fun p => !(decide (p.1.stop ≤ through + 1 / 1000) || decide (p.2 < drop)))
        = words.zipIdx n := by
    refine List.filter_eq_self.mpr ?_
    intro p hp
    have hmem : p.1 ∈ words := List.fst_mem_of_mem_zipIdx hp
    have hidx : n ≤ p.2 := List.le_snd_of_mem_zipIdx hp
    have hlt := h p.1 hmem
    simp only [Bool.not_eq_true', Bool.or_eq_false_iff, decide_eq_false_iff_not, not_le, not_lt]
    exact ⟨hlt, by omega⟩
  rw [hall, List.zipIdx_map_fst]

/-- **The dedupe keeps exactly the new words.** -/
theorem dropCommitted_append {old new : List Word} {texts : List Text} {through : Seconds}
    (hold : (∀ w ∈ old, w.stop ≤ through + 1 / 1000) ∨
      old.length ≤ U.alignmentDrop (texts.drop (texts.length - OVERLAP_LOOKBACK))
        ((old ++ new).map (fun w => U.norm w.text)))
    (hnew : ∀ w ∈ new, through + 1 / 1000 < w.stop)
    (hdrop : U.alignmentDrop (texts.drop (texts.length - OVERLAP_LOOKBACK))
      ((old ++ new).map (fun w => U.norm w.text)) ≤ old.length)
    (htrunc : ∀ w ∈ new.head?, ∀ last ∈ texts.getLast?, U.isTruncation last w = false) :
    U.dropCommitted (old ++ new) texts through = new := by
  unfold dropCommitted
  simp only
  rw [List.zipIdx_append, List.filter_append, List.map_append, filter_old hold,
    filter_new (by simpa using hdrop) hnew, List.nil_append]
  unfold dropResegmented
  split
  · next head rest last hlast =>
    split_ifs with hlen htr
    · rfl
    · rw [htrunc head (by simp) last (by simp [hlast])] at htr
      exact absurd htr (by simp)
    · rfl
  · rfl

end Unicode

end Myna

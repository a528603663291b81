import Myna.Desktop.IbusTarget

/-!
# Myna — a long commit in pieces (`commit_pieces` of `myna_desktop::inject::ibus`)

`commit_pieces` walks over bytes, characters and UTF-16 units at once. Here it is with its byte
offsets, a slice off a character's boundary being a panic, and a loop that need not end.

* **`fit_spec`** — where a piece is cut;
* **`commitPiecesFor_eq`** — the loop over bytes is the one over characters;
* **`commit_pieces_whole`** — nothing is lost, and no word that fits is split.
-/

namespace Myna

namespace Desktop

namespace Ibus

/-! ## The loop -/

/-- `text.len()`: how many bytes it has. -/
def lenUtf8 (text : List Char) : ℕ := (text.map Char.utf8Size).sum

/-- `(&rest[..cut], &rest[cut..])`, which panics inside a character and beyond the end. -/
def sliceAt : ℕ → List Char → Option (List Char × List Char)
  | 0, rest => some ([], rest)
  | _ + 1, [] => none
  | cut + 1, c :: rest =>
    if c.utf8Size ≤ cut + 1 then
      (sliceAt (cut + 1 - c.utf8Size) rest).map fun slices => (c :: slices.1, slices.2)
    else none

/-- The `for` over `char_indices`, `i` being the next character's index: `cut` and `after_space`. -/
def cutOf (limit : ℕ) : ℕ → ℕ → ℕ → Option ℕ → List Char → ℕ × Option ℕ
  | _, _, cut, afterSpace, [] => (cut, afterSpace)
  | i, used, cut, afterSpace, c :: rest =>
    if limit < used + lenUtf16 c then (cut, afterSpace)
    else
      cutOf limit (i + c.utf8Size) (used + lenUtf16 c) (i + c.utf8Size)
        (if isWhitespace c then some (i + c.utf8Size) else afterSpace)
        rest

/-- `commit_pieces` for at most `fuel` turns, of which `fuel - 1` push a piece. -/
def commitPiecesFor (limit : ℕ) : ℕ → List Char → Option (List (List Char))
  | 0, _ => none
  | fuel + 1, rest =>
    if limit < units rest then
      let (cut, afterSpace) := cutOf limit 0 0 0 none rest
      match sliceAt (afterSpace.getD cut) rest with
      | some (piece, rest) => (commitPiecesFor limit fuel rest).map (piece :: ·)
      | none => none
    else some [rest]

/-! ## Bytes and characters -/

theorem lenUtf8_append (s t : List Char) : lenUtf8 (s ++ t) = lenUtf8 s + lenUtf8 t := by
  simp [lenUtf8]

/-- A cut between two characters is on a boundary. -/
theorem sliceAt_lenUtf8 (piece rest : List Char) :
    sliceAt (lenUtf8 piece) (piece ++ rest) = some (piece, rest) := by
  induction piece with
  | nil =>
    unfold sliceAt
    rfl
  | cons c piece ih =>
    have hlen : lenUtf8 (c :: piece) = c.utf8Size + lenUtf8 piece := rfl
    have hpos := c.utf8Size_pos
    obtain ⟨n, hn⟩ : ∃ n, lenUtf8 (c :: piece) = n + 1 := ⟨lenUtf8 (c :: piece) - 1, by omega⟩
    rw [hn, List.cons_append, sliceAt, if_pos (by omega)]
    have hrest : n + 1 - c.utf8Size = lenUtf8 piece := by omega
    rw [hrest, ih]
    rfl

theorem cutOf_stop (pre rest : List Char) {afterSpace : Option ℕ}
    (hspace : ∀ k ∈ afterSpace, k ≤ pre.length) :
    (lenUtf8 pre, afterSpace.map fun k => lenUtf8 (pre.take k)) =
      (lenUtf8 ((pre ++ rest).take pre.length),
        afterSpace.map fun k => lenUtf8 ((pre ++ rest).take k)) := by
  rw [List.take_left]
  congr 1
  apply Option.map_congr
  intro k hk
  rw [List.take_append_of_le_length (hspace k hk)]

/-- The cut in bytes is that in characters, `pre` having been walked over. -/
theorem cutOf_eq (limit used : ℕ) (pre rest : List Char) {afterSpace : Option ℕ}
    (hspace : ∀ k ∈ afterSpace, k ≤ pre.length) :
    cutOf limit (lenUtf8 pre) used (lenUtf8 pre) (afterSpace.map fun k => lenUtf8 (pre.take k))
        rest =
      (lenUtf8 ((pre ++ rest).take (fit limit used pre.length afterSpace rest).1),
        (fit limit used pre.length afterSpace rest).2.map fun k =>
          lenUtf8 ((pre ++ rest).take k)) := by
  induction rest generalizing used pre afterSpace with
  | nil => exact cutOf_stop pre [] hspace
  | cons c rest ih =>
    unfold cutOf fit
    by_cases hfits : limit < used + lenUtf16 c
    · rw [if_pos hfits, if_pos hfits]
      exact cutOf_stop pre (c :: rest) hspace
    · rw [if_neg hfits, if_neg hfits]
      have hlen : lenUtf8 pre + c.utf8Size = lenUtf8 (pre ++ [c]) := by
        rw [lenUtf8_append]
        rfl
      have hnext : (if isWhitespace c then some (lenUtf8 pre + c.utf8Size) else
            afterSpace.map fun k => lenUtf8 (pre.take k)) =
          (if isWhitespace c then some (pre.length + 1) else afterSpace).map fun k =>
            lenUtf8 ((pre ++ [c]).take k) := by
        split
        · rw [hlen, Option.map_some, List.take_of_length_le (by simp)]
        · apply Option.map_congr
          intro k hk
          rw [List.take_append_of_le_length (hspace k hk)]
      have hspace' : ∀ k ∈ (if isWhitespace c then some (pre.length + 1) else afterSpace),
          k ≤ (pre ++ [c]).length := by
        intro k hk
        rw [List.length_append, List.length_singleton]
        split at hk
        · cases hk
          omega
        · have hle := hspace k hk
          omega
      have ih := ih (used + lenUtf16 c) (pre ++ [c]) hspace'
      rw [List.append_assoc, List.singleton_append, List.length_append,
        List.length_singleton] at ih
      rw [hnext, hlen]
      exact ih

/-! ## Where a piece is cut -/

theorem units_append (s t : List Char) : units (s ++ t) = units s + units t := by
  simp [units]

/-- The characters that fit are walked over, the last whitespace among them is remembered. -/
theorem fit_spec (limit used k : ℕ) (afterSpace : Option ℕ) (rest : List Char)
    (hused : used ≤ limit) : ∃ fits, fits <+: rest ∧ used + units fits ≤ limit ∧
      (∀ q, q <+: rest → used + units q ≤ limit → q.length ≤ fits.length) ∧
      (fit limit used k afterSpace rest).1 = k + fits.length ∧
      ((fit limit used k afterSpace rest).2 = afterSpace ∧ (∀ c ∈ fits, isWhitespace c = false) ∨
        ∃ q, q <+: fits ∧ (∃ c ∈ q.getLast?, isWhitespace c = true) ∧
          (fit limit used k afterSpace rest).2 = some (k + q.length)) := by
  induction rest generalizing used k afterSpace with
  | nil =>
    refine ⟨[], List.prefix_rfl, hused, ?_, rfl, .inl ⟨rfl, nofun⟩⟩
    intro q hq _
    rw [List.prefix_nil.mp hq]
  | cons c rest ih =>
    unfold fit
    by_cases hfits : limit < used + lenUtf16 c
    · rw [if_pos hfits]
      refine ⟨[], List.nil_prefix, hused, ?_, rfl, .inl ⟨rfl, nofun⟩⟩
      -- a longer prefix has the character that does not fit
      intro q hq hle
      cases q with
      | nil => exact Nat.le_refl _
      | cons d q =>
        obtain ⟨rfl, -⟩ := List.cons_prefix_cons.mp hq
        have hunits : units (d :: q) = lenUtf16 d + units q := rfl
        omega
    · rw [if_neg hfits]
      obtain ⟨fits, hfront, hle, hmax, hcut, hspace⟩ := ih (used + lenUtf16 c) (k + 1)
        (if isWhitespace c then some (k + 1) else afterSpace) (by omega)
      have hunits : ∀ q, units (c :: q) = lenUtf16 c + units q := fun _ => rfl
      refine ⟨c :: fits, List.cons_prefix_cons.mpr ⟨rfl, hfront⟩, ?_, ?_, ?_, ?_⟩
      · have h := hunits fits
        omega
      · intro q hq hqle
        cases q with
        | nil => exact Nat.zero_le _
        | cons d q =>
          obtain ⟨rfl, hfront⟩ := List.cons_prefix_cons.mp hq
          have h := hunits q
          exact Nat.succ_le_succ (hmax q hfront (by omega))
      · rw [hcut, List.length_cons]
        omega
      · cases hspace with
        | inl hnone =>
          rw [hnone.1]
          by_cases hc : isWhitespace c = true
          · right
            refine ⟨[c], List.cons_prefix_cons.mpr ⟨rfl, List.nil_prefix⟩, ⟨c, rfl, hc⟩, ?_⟩
            rw [if_pos hc]
            rfl
          · left
            rw [if_neg hc]
            refine ⟨rfl, ?_⟩
            intro d hd
            cases List.mem_cons.mp hd with
            | inl heq =>
              rw [heq]
              exact Bool.eq_false_of_not_eq_true hc
            | inr hmem => exact hnone.2 d hmem
        | inr hlast =>
          obtain ⟨q, hq, ⟨d, hd, hspace⟩, heq⟩ := hlast
          right
          refine ⟨c :: q, List.cons_prefix_cons.mpr ⟨rfl, hq⟩, ⟨d, ?_, hspace⟩, ?_⟩
          · rw [List.getLast?_cons, hd]
            rfl
          · rw [heq, List.length_cons]
            congr 1
            omega

/-- A piece that is cut off: it ends with whitespace, or is as long as fits. -/
structure CutOff (limit : ℕ) (text piece : List Char) : Prop where
  start : piece <+: text
  fits : units piece ≤ limit
  ne_nil : piece ≠ []
  ends : (∃ c ∈ piece.getLast?, isWhitespace c = true) ∨
    ((∀ c ∈ piece, isWhitespace c = false) ∧
      ∀ q, q <+: text → units q ≤ limit → q.length ≤ piece.length)

/-- How many characters the next piece has. -/
def cutAt (limit : ℕ) (text : List Char) : ℕ :=
  (fit limit 0 0 none text).2.getD (fit limit 0 0 none text).1

/-- One character fits, whatever it is, so the loop goes on. -/
theorem cutOff_take {limit : ℕ} (hlimit : 2 ≤ limit) {text : List Char} (hne : text ≠ []) :
    CutOff limit text (text.take (cutAt limit text)) := by
  obtain ⟨fits, hfront, hle, hmax, hcut, hspace⟩ := fit_spec limit 0 0 none text (Nat.zero_le _)
  rw [Nat.zero_add] at hle hcut
  unfold cutAt
  cases hspace with
  | inl hnone =>
    rw [hnone.1, hcut, Option.getD_none, ← List.prefix_iff_eq_take.mp hfront]
    refine ⟨hfront, hle, ?_, .inr ⟨hnone.2, fun q hq hqle => hmax q hq (by omega)⟩⟩
    intro hnil
    cases text with
    | nil => exact hne rfl
    | cons c text =>
      have hunits : units [c] ≤ 2 := by
        show lenUtf16 c + 0 ≤ 2
        unfold lenUtf16
        split <;> omega
      have hone := hmax [c] (List.cons_prefix_cons.mpr ⟨rfl, List.nil_prefix⟩) (by omega)
      rw [hnil] at hone
      cases hone
  | inr hlast =>
    obtain ⟨q, hq, hspace, heq⟩ := hlast
    rw [heq, Option.getD_some, Nat.zero_add, ← List.prefix_iff_eq_take.mp (hq.trans hfront)]
    refine ⟨hq.trans hfront, ?_, ?_, .inl hspace⟩
    · obtain ⟨more, rfl⟩ := hq
      rw [units_append] at hle
      omega
    · intro hnil
      obtain ⟨c, hc, -⟩ := hspace
      rw [hnil] at hc
      cases hc

/-! ## The loop over bytes -/

/-- A turn of the loop takes what `piecesOf` takes. -/
theorem commitPiecesFor_succ {limit fuel : ℕ} {rest : List Char} (hlong : limit < units rest) :
    commitPiecesFor limit (fuel + 1) rest =
      (commitPiecesFor limit fuel (rest.drop (cutAt limit rest))).map
      (rest.take (cutAt limit rest) :: ·) := by
  have hcut := @cutOf_eq limit 0 [] rest none nofun
  have hslice : ((fit limit 0 0 none rest).2.map fun k => lenUtf8 (rest.take k)).getD
      (lenUtf8 (rest.take (fit limit 0 0 none rest).1)) = lenUtf8 (rest.take (cutAt limit rest)) :=
    Option.getD_map ..
  have hcut : cutOf limit 0 0 0 none rest =
      (lenUtf8 (rest.take (fit limit 0 0 none rest).1),
        (fit limit 0 0 none rest).2.map fun k => lenUtf8 (rest.take k)) := hcut
  have hsplit := sliceAt_lenUtf8 (rest.take (cutAt limit rest)) (rest.drop (cutAt limit rest))
  rw [List.take_append_drop] at hsplit
  rw [commitPiecesFor, if_pos hlong, hcut]
  dsimp only
  rw [hslice, hsplit]

/-- The loop ends, in as many turns as there are characters, with the pieces of `piecesOf`. -/
theorem commitPiecesFor_eq {limit : ℕ} (hlimit : 2 ≤ limit) {n fuel : ℕ} {text : List Char}
    (hn : text.length ≤ n) (hfuel : text.length < fuel) :
    commitPiecesFor limit fuel text = some (piecesOf limit n text) := by
  induction fuel generalizing n text with
  | zero => cases hfuel
  | succ fuel ih =>
    by_cases hlong : limit < units text
    · have hne : text ≠ [] := by
        intro hnil
        rw [hnil] at hlong
        cases hlong
      have hcut := cutOff_take hlimit hne
      have hpos : 0 < cutAt limit text := by
        by_contra hzero
        have hzero : cutAt limit text = 0 := by omega
        apply hcut.ne_nil
        rw [hzero, List.take_zero]
      have hlength := List.length_pos_iff.mpr hne
      cases n with
      | zero => omega
      | succ n =>
        have hdrop : (text.drop (cutAt limit text)).length = text.length - cutAt limit text :=
          List.length_drop
        rw [commitPiecesFor_succ hlong, ih (n := n) (by omega) (by omega), piecesOf, if_pos hlong]
        rfl
    · rw [commitPiecesFor, if_neg hlong]
      cases n with
      | zero => rfl
      | succ n => rw [piecesOf, if_neg hlong]

/-! ## The pieces -/

/-- What the pieces of a text are. -/
inductive Cut (limit : ℕ) : List Char → List (List Char) → Prop where
  | last {text : List Char} (hfits : units text ≤ limit) : Cut limit text [text]
  | piece {piece rest : List Char} {pieces : List (List Char)}
      (hcut : CutOff limit (piece ++ rest) piece) (hne : rest ≠ [])
      (hrest : Cut limit rest pieces) : Cut limit (piece ++ rest) (piece :: pieces)

theorem cut_piecesOf {limit : ℕ} (hlimit : 2 ≤ limit) {n : ℕ} {text : List Char}
    (hn : text.length ≤ n) : Cut limit text (piecesOf limit n text) := by
  induction n generalizing text with
  | zero =>
    rw [List.length_eq_zero_iff.mp (Nat.le_zero.mp hn)]
    exact .last (Nat.zero_le _)
  | succ n ih =>
    by_cases hlong : limit < units text
    · have hne : text ≠ [] := by
        intro hnil
        rw [hnil] at hlong
        cases hlong
      have hcut := cutOff_take hlimit hne
      have hpos := List.length_pos_iff.mpr hcut.ne_nil
      have happend := List.take_append_drop (cutAt limit text) text
      have hlength := congrArg List.length happend
      rw [List.length_append] at hlength
      rw [piecesOf, if_pos hlong]
      show Cut limit text (text.take (cutAt limit text) :: piecesOf limit n
        (text.drop (cutAt limit text)))
      have hrest : Cut limit (text.drop (cutAt limit text))
          (piecesOf limit n (text.drop (cutAt limit text))) := ih (by omega)
      generalize text.take (cutAt limit text) = piece at *
      generalize text.drop (cutAt limit text) = rest at *
      subst happend
      refine .piece hcut ?_ hrest
      -- the piece fits and the text does not
      intro hnil
      have hfits := hcut.fits
      rw [hnil, List.append_nil] at hlong
      omega
    · rw [piecesOf, if_neg hlong]
      exact .last (Nat.le_of_not_lt hlong)

theorem Cut.units_le {limit : ℕ} {text : List Char} {pieces : List (List Char)}
    (h : Cut limit text pieces) : ∀ piece ∈ pieces, units piece ≤ limit := by
  induction h with
  | last hfits =>
    intro piece hpiece
    rw [List.mem_singleton.mp hpiece]
    exact hfits
  | piece hcut _ _ ih =>
    intro piece hpiece
    cases List.mem_cons.mp hpiece with
    | inl heq =>
      rw [heq]
      exact hcut.fits
    | inr hmem => exact ih piece hmem

theorem Cut.ne_nil {limit : ℕ} {text : List Char} {pieces : List (List Char)}
    (h : Cut limit text pieces) (hne : text ≠ []) : ∀ piece ∈ pieces, piece ≠ [] := by
  induction h with
  | last _ =>
    intro piece hpiece
    rw [List.mem_singleton.mp hpiece]
    exact hne
  | piece hcut hrest _ ih =>
    intro piece hpiece
    cases List.mem_cons.mp hpiece with
    | inl heq =>
      rw [heq]
      exact hcut.ne_nil
    | inr hmem => exact ih hrest piece hmem

theorem Cut.flatten {limit : ℕ} {text : List Char} {pieces : List (List Char)}
    (h : Cut limit text pieces) : pieces.flatten = text := by
  induction h with
  | last _ => exact List.flatten_singleton
  | piece _ _ _ ih => rw [List.flatten_cons, ih]

/-- `word` is the run of non-whitespace characters that `before` ends at. -/
structure IsWord (before word : List Char) : Prop where
  inked : ∀ c ∈ word, isWhitespace c = false
  starts : ∀ c ∈ before.getLast?, isWhitespace c = true

/-- One of the pieces has all of `word`, between `before` and `after`. -/
structure WordWhole (before word after : List Char) (pieces : List (List Char)) : Prop where
  within : ∃ earlier front back later, pieces = earlier ++ (front ++ word ++ back) :: later ∧
    earlier.flatten ++ front = before ∧ back ++ later.flatten = after

/-- The pieces after the first have it. -/
theorem WordWhole.cons {piece before word after : List Char} {pieces : List (List Char)}
    (h : WordWhole before word after pieces) :
    WordWhole (piece ++ before) word after (piece :: pieces) := by
  obtain ⟨earlier, front, back, later, hpieces, hbefore, hafter⟩ := h.within
  refine ⟨piece :: earlier, front, back, later, ?_, ?_, hafter⟩
  · rw [hpieces, List.cons_append]
  · rw [List.flatten_cons, List.append_assoc, hbefore]

/-- A piece that ends inside a word ends with no whitespace, so it starts with the word and is as
long as fits. -/
theorem CutOff.not_inside {limit : ℕ} {before w₁ w₂ more : List Char} (hne₁ : w₁ ≠ [])
    (hne₂ : w₂ ≠ []) (hword : IsWord before (w₁ ++ w₂)) (hfits : units (w₁ ++ w₂) ≤ limit)
    (h : CutOff limit (before ++ w₁ ++ (w₂ ++ more)) (before ++ w₁)) : False := by
  obtain ⟨c, hc⟩ := Option.isSome_iff_exists.mp (List.getLast?_isSome.mpr hne₁)
  have hmem := List.mem_of_getLast? hc
  cases h.ends with
  | inl hspace =>
    obtain ⟨d, hd, hd'⟩ := hspace
    rw [List.getLast?_append, hc] at hd
    cases hd
    rw [hword.inked c (List.mem_append_left _ hmem)] at hd'
    cases hd'
  | inr hlong =>
    obtain ⟨hinked, hmax⟩ := hlong
    cases hlast : before.getLast? with
    | some d =>
      have hspace := hword.starts d hlast
      rw [hinked d (List.mem_append_left _ (List.mem_of_getLast? hlast))] at hspace
      cases hspace
    | none =>
      rw [List.getLast?_eq_none_iff] at hlast
      subst hlast
      have hle := hmax (w₁ ++ w₂) ⟨more, by simp⟩ hfits
      have hpos := List.length_pos_iff.mpr hne₂
      rw [List.nil_append, List.length_append] at hle
      omega

/-- A word that fits is not split. -/
theorem Cut.whole {limit : ℕ} {text : List Char} {pieces : List (List Char)}
    (h : Cut limit text pieces) {before word after : List Char}
    (htext : text = before ++ (word ++ after)) (hword : IsWord before word)
    (hfits : units word ≤ limit) : WordWhole before word after pieces := by
  induction h generalizing before with
  | last _ =>
    rw [htext, ← List.append_assoc]
    exact ⟨[], before, after, [], rfl, rfl, List.append_nil _⟩
  | @piece piece rest pieces hcut hne hrest ih =>
    have hlater : ∀ before', before = piece ++ before' → rest = before' ++ (word ++ after) →
        WordWhole before word after (piece :: pieces) := by
      intro before' hbefore hrest
      subst hbefore
      apply (ih hrest ⟨hword.inked, ?_⟩).cons
      intro c hc
      apply hword.starts c
      rw [List.getLast?_append, hc]
      rfl
    cases List.append_eq_append_iff.mp htext with
    | inl hbefore =>
      obtain ⟨before', hbefore, hrest⟩ := hbefore
      exact hlater before' hbefore hrest
    | inr hinside =>
      obtain ⟨w₁, hpiece, hw⟩ := hinside
      have hwhole : ∀ back, w₁ = word ++ back → after = back ++ rest →
          WordWhole before word after (piece :: pieces) := by
        intro back hw₁ hafter
        refine ⟨[], before, back, pieces, ?_, rfl, ?_⟩
        · rw [hpiece, hw₁, ← List.append_assoc]
          rfl
        · rw [hrest.flatten, hafter]
      cases List.append_eq_append_iff.mp hw with
      | inl hback =>
        obtain ⟨back, hw₁, hafter⟩ := hback
        exact hwhole back hw₁ hafter
      | inr hsplit =>
        obtain ⟨w₂, rfl, hrest'⟩ := hsplit
        by_cases hne₁ : w₁ = []
        · subst hne₁
          apply hlater []
          · rw [hpiece, List.append_nil, List.append_nil]
          · rw [hrest', List.nil_append, List.nil_append]
        · by_cases hne₂ : w₂ = []
          · subst hne₂
            apply hwhole []
            · rw [List.append_nil, List.append_nil]
            · exact hrest'.symm
          · subst hpiece hrest'
            exact (hcut.not_inside hne₁ hne₂ hword hfits).elim

/-- Nothing of a text is lost between its pieces, each of which fits; no word that fits is split. -/
structure WholeCommit (text : List Char) (limit : ℕ) (pieces : List (List Char)) : Prop where
  flatten : pieces.flatten = text
  fits : ∀ piece ∈ pieces, units piece ≤ limit
  ne_nil : text ≠ [] → ∀ piece ∈ pieces, piece ≠ []
  words : ∀ before word after, text = before ++ (word ++ after) → IsWord before word →
    units word ≤ limit → WordWhole before word after pieces

/-- `commit_pieces` returns, without a panic, the pieces of the text. -/
theorem commit_pieces_whole (text : String) (limit : ℕ) (hlimit : 2 ≤ limit) :
    ∃ pieces, (∀ fuel, text.length < fuel → commitPiecesFor limit fuel text.toList = some pieces) ∧
      commitPieces text limit = pieces.map String.ofList ∧
      WholeCommit text.toList limit pieces := by
  have hcut : Cut limit text.toList (piecesOf limit text.length text.toList) :=
    cut_piecesOf hlimit (Nat.le_refl _)
  refine ⟨piecesOf limit text.length text.toList, ?_, rfl, hcut.flatten, hcut.units_le,
    hcut.ne_nil, fun _ _ _ htext hword hfits => hcut.whole htext hword hfits⟩
  intro fuel hfuel
  exact commitPiecesFor_eq hlimit (Nat.le_refl _) hfuel

/-- The character of two units does not fit beside two others. -/
theorem clef_whole : ∃ pieces,
    (∀ fuel, "ab𝄞".length < fuel → commitPiecesFor 3 fuel "ab𝄞".toList = some pieces) ∧
      commitPieces "ab𝄞" 3 = pieces.map String.ofList ∧
      WholeCommit "ab𝄞".toList 3 pieces :=
  commit_pieces_whole "ab𝄞" 3 (by decide)

end Ibus

end Desktop

end Myna

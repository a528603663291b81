import Mathlib.Data.List.Basic

/-!
# Lines of a text

`lines` cuts a text after each line feed, as `str::lines` does: a carriage return before a line feed
belongs to it, and what follows the last line feed is a line unless it is empty.

* **`lines_append`**, **`lines_flatMap`** — the lines that were written are read;
* **`notMem_of_mem_lines`** — a line holds no line feed.
-/

namespace Lines

/-- A line without the carriage return of its end. -/
def chomp (line : List Char) : List Char :=
  if line.getLast? = some '\r' then line.dropLast else line

/-- The lines of what is left, after `current`. -/
def linesFrom (current : List Char) : List Char → List (List Char)
  | [] => if current = [] then [] else [current]
  | c :: rest =>
    if c = '\n' then chomp current :: linesFrom [] rest else linesFrom (current ++ [c]) rest

def lines (text : List Char) : List (List Char) := linesFrom [] text

theorem linesFrom_append (current line rest : List Char) (hline : '\n' ∉ line) :
    linesFrom current (line ++ rest) = linesFrom (current ++ line) rest := by
  induction line generalizing current with
  | nil => rw [List.nil_append, List.append_nil]
  | cons c line ih =>
    obtain ⟨hc, hline⟩ := not_or.mp (mt List.mem_cons.mpr hline)
    rw [List.cons_append, linesFrom, if_neg (Ne.symm hc), ih (current ++ [c]) hline,
      List.append_assoc, List.singleton_append]

/-- A line that its line feed ends. -/
theorem lines_append (line rest : List Char) (hline : '\n' ∉ line)
    (hlast : line.getLast? ≠ some '\r') :
    lines (line ++ '\n' :: rest) = line :: lines rest := by
  show linesFrom [] (line ++ '\n' :: rest) = line :: linesFrom [] rest
  rw [linesFrom_append _ _ _ hline, linesFrom, if_pos rfl, List.nil_append, chomp, if_neg hlast]

/-- Lines that were each written with a line feed. -/
theorem lines_flatMap {written : List (List Char)}
    (h : ∀ line ∈ written, '\n' ∉ line ∧ line.getLast? ≠ some '\r') :
    lines (written.flatMap (· ++ ['\n'])) = written := by
  induction written with
  | nil => rfl
  | cons line written ih =>
    obtain ⟨hline, hlast⟩ := h line List.mem_cons_self
    rw [List.flatMap_cons, List.append_assoc, List.singleton_append, lines_append _ _ hline hlast,
      ih fun line hmem => h line (List.mem_cons_of_mem _ hmem)]

theorem chomp_subset (line : List Char) : chomp line ⊆ line := by
  unfold chomp
  split
  · exact line.dropLast_subset
  · exact List.Subset.refl _

/-- No line holds a line feed. -/
theorem notMem_of_mem_linesFrom {current text line : List Char} (hcurrent : '\n' ∉ current)
    (h : line ∈ linesFrom current text) : '\n' ∉ line := by
  induction text generalizing current with
  | nil =>
    rw [linesFrom] at h
    split at h
    · cases h
    · rw [List.mem_singleton.mp h]
      exact hcurrent
  | cons c rest ih =>
    rw [linesFrom] at h
    split at h
    · rcases List.mem_cons.mp h with rfl | hrest
      · exact fun hmem => hcurrent (chomp_subset _ hmem)
      · exact ih List.not_mem_nil hrest
    · rename_i hc
      refine ih ?_ h
      simp [hcurrent, Ne.symm hc]

theorem notMem_of_mem_lines {text line : List Char} (h : line ∈ lines text) : '\n' ∉ line :=
  notMem_of_mem_linesFrom List.not_mem_nil h

end Lines

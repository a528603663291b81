import Mathlib.Data.List.Basic

/-!
# Sequence matching — `difflib.SequenceMatcher` without junk

The matcher of Python's standard library, over any type with decidable equality and with
`autojunk=False`: the longest matching block that starts earliest in `a` and then in `b`, applied
recursively to its left and its right, gives the matching blocks and these the opcodes.
-/

namespace SequenceMatcher

variable {α : Type*} [DecidableEq α]

/-- Length of the longest common prefix. -/
def commonPrefix : List α → List α → ℕ
  | x :: xs, y :: ys => if x = y then commonPrefix xs ys + 1 else 0
  | _, _ => 0

/-- `size` elements at `i` of `a` equal those at `j` of `b`. -/
structure Block where
  i : ℕ
  j : ℕ
  size : ℕ

/-- The longest block inside `a[alo:ahi]`, `b[blo:bhi]`; of equally long ones the one that starts
earliest in `a`, then earliest in `b`. -/
def findLongestMatch (a b : List α) (alo ahi blo bhi : ℕ) : Block :=
  (List.range' alo (ahi - alo)).foldl (fun best i =>
    (List.range' blo (bhi - blo)).foldl (fun best j =>
      let k := commonPrefix ((a.take ahi).drop i) ((b.take bhi).drop j)
      if best.size < k then ⟨i, j, k⟩ else best) best) ⟨alo, blo, 0⟩

/-- The blocks of `a[alo:ahi]`, `b[blo:bhi]` in order, before adjacent ones are joined. A block is
at least one element long, so `fuel = ahi - alo` is enough for the recursion. -/
def matchingBlocksAux (a b : List α) : (fuel alo ahi blo bhi : ℕ) → List Block
  | 0, _, _, _, _ => []
  | fuel + 1, alo, ahi, blo, bhi =>
    let x := findLongestMatch a b alo ahi blo bhi
    if x.size = 0 then []
    else
      (if alo < x.i ∧ blo < x.j then matchingBlocksAux a b fuel alo x.i blo x.j else []) ++ x ::
        (if x.i + x.size < ahi ∧ x.j + x.size < bhi then
          matchingBlocksAux a b fuel (x.i + x.size) ahi (x.j + x.size) bhi else [])

/-- Blocks that touch in both sequences become one. -/
def joinAdjacent : List Block → List Block
  | [] => []
  | x :: xs =>
    match joinAdjacent xs with
    | [] => [x]
    | y :: ys =>
      if x.i + x.size = y.i ∧ x.j + x.size = y.j then ⟨x.i, x.j, x.size + y.size⟩ :: ys
      else x :: y :: ys

/-- `get_matching_blocks`, with its empty block at the two ends. -/
def matchingBlocks (a b : List α) : List Block :=
  joinAdjacent (matchingBlocksAux a b a.length 0 a.length 0 b.length) ++ [⟨a.length, b.length, 0⟩]

inductive Tag where
  | equal
  | replace
  | delete
  | insert
deriving DecidableEq

/-- `a[i1:i2]` becomes `b[j1:j2]` as `tag` says. -/
structure Opcode where
  tag : Tag
  i1 : ℕ
  i2 : ℕ
  j1 : ℕ
  j2 : ℕ
deriving DecidableEq

/-- The opcodes of a list of blocks, from position `i` of `a` and `j` of `b` on. -/
def opcodesFrom : (i j : ℕ) → List Block → List Opcode
  | _, _, [] => []
  | i, j, x :: xs =>
    (if i < x.i ∧ j < x.j then [⟨.replace, i, x.i, j, x.j⟩]
      else if i < x.i then [⟨.delete, i, x.i, j, x.j⟩]
      else if j < x.j then [⟨.insert, i, x.i, j, x.j⟩] else []) ++
    (if x.size = 0 then [] else [⟨.equal, x.i, x.i + x.size, x.j, x.j + x.size⟩]) ++
    opcodesFrom (x.i + x.size) (x.j + x.size) xs

/-- `get_opcodes`. -/
def opcodes (a b : List α) : List Opcode := opcodesFrom 0 0 (matchingBlocks a b)

example : opcodes [1, 2, 3] [1, 2, 4, 3] =
    [⟨.equal, 0, 2, 0, 2⟩, ⟨.insert, 2, 2, 2, 3⟩, ⟨.equal, 2, 3, 3, 4⟩] := by decide

end SequenceMatcher

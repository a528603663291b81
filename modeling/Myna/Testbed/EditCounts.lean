import Mathlib.Algebra.Group.Nat.Defs
import Mathlib.Data.Nat.Sqrt
import Myna.Lib.Dict
import Myna.Lib.EditDistance
import Myna.Lib.While

/-!
# Myna — the edit counts of the metrics (`_direct_counts`, `_checkpointed_counts`)

The substitutions, deletions and insertions between a reference and a hypothesis, from a backtrace
through the table of edit distances. The checkpointed form keeps every `block`-th row of the table,
packed into a C integer type, and replays the backtrace one block at a time. Packing an integer that
does not fit raises an error, here `none`.

* **`Trace.turn`** — one turn of the backtrace;
* **`directTable`**, **`directCounts`** — the full table;
* **`forward`**, **`backward`**, **`checkpointedCounts`** — the checkpointed one.
-/

namespace Myna

namespace Metrics

variable {α : Type} [DecidableEq α]

/-- `row[j]`. -/
def entry (row : List ℕ) (j : ℕ) : ℕ := (row[j]?).getD 0

/-- One cell of a row, from the row before and the cells before it. -/
def cellOf (refToken hypToken : α) (prev cur : List ℕ) (j : ℕ) : ℕ :=
  if refToken = hypToken then entry prev j
  else 1 + min (min (entry prev j) (entry prev (j + 1))) (entry cur j)

/-! ## The backtrace -/

/-- Where the backtrace stands, and what it has counted. -/
structure Trace where
  i : ℕ
  j : ℕ
  subs : ℕ := 0
  dels : ℕ := 0
  ins : ℕ := 0
deriving DecidableEq

namespace Trace

def counts (t : Trace) : ℕ × ℕ × ℕ := (t.subs, t.dels, t.ins)

/-- One turn, given the rows of `i` and of the one before it: a match, a substitution, a deletion or
an insertion, in this order. -/
def turn (same : Bool) (cur prev : List ℕ) (t : Trace) : Trace :=
  if 0 < t.i ∧ 0 < t.j ∧ same = true then { t with i := t.i - 1, j := t.j - 1 }
  else if 0 < t.i ∧ 0 < t.j ∧ entry cur t.j = entry prev (t.j - 1) + 1 then
    { t with subs := t.subs + 1, i := t.i - 1, j := t.j - 1 }
  else if 0 < t.i ∧ entry cur t.j = entry prev t.j + 1 then
    { t with dels := t.dels + 1, i := t.i - 1 }
  else { t with ins := t.ins + 1, j := t.j - 1 }

/-- `while i > 0 or j > 0`. -/
def test (t : Trace) : Bool := decide (0 < t.i ∨ 0 < t.j)

end Trace

/-! ## The full table -/

section Direct

variable (reference hypothesis : List α)

/-- The inner loop of the table: row `i`, from the row before. -/
def directRow (hypothesis : List α) (prev : List ℕ) (refToken : α) (i : ℕ) : List ℕ :=
  hypothesis.zipIdx.foldl (fun cur h => cur ++ [cellOf refToken h.1 prev cur h.2]) [i]

/-- `dp`. -/
def directTable : List (List ℕ) :=
  reference.zipIdx.foldl
    (fun dp r => dp ++ [directRow hypothesis ((dp[r.2]?).getD []) r.1 (r.2 + 1)])
    [List.range (hypothesis.length + 1)]

def directTurn (dp : List (List ℕ)) (t : Trace) : Trace :=
  t.turn (reference[t.i - 1]? == hypothesis[t.j - 1]?) ((dp[t.i]?).getD [])
    ((dp[t.i - 1]?).getD [])

/-- `_direct_counts`. -/
def directCounts : Option (ℕ × ℕ × ℕ) :=
  let n := reference.length
  let m := hypothesis.length
  if n = 0 then some (0, 0, m)
  else if m = 0 then some (0, n, 0)
  else
    (While.whileLoop Trace.test (directTurn reference hypothesis (directTable reference hypothesis))
      (n + m) { i := n, j := m }).map Trace.counts

end Direct

/-! ## The checkpointed table -/

/-- `array.append`, for a type that holds the integers below `limit`. -/
def pack (limit : ℕ) (cur : List ℕ) (value : ℕ) : Option (List ℕ) :=
  if value < limit then some (cur ++ [value]) else none

/-- `_dp_dtype`: the integers below this fit the type, two or four bytes. -/
def typeLimit (n m : ℕ) : ℕ := if max n m < 65535 then 2 ^ 16 else 2 ^ 32

/-- `_row_after`. -/
def rowAfter (limit : ℕ) (prev : List ℕ) (refToken : α) (hypothesis : List α) :
    Option (List ℕ) := do
  let cur ← pack limit [] (entry prev 0 + 1)
  hypothesis.zipIdx.foldlM (fun cur h => pack limit cur (cellOf refToken h.1 prev cur h.2)) cur

section Checkpointed

variable (reference hypothesis : List α) (limit block : ℕ)

/-- One row of the forward pass, kept if it is the last of its block. -/
def keepRow (acc : List ℕ × Dict ℕ (List ℕ)) (r : α × ℕ) :
    Option (List ℕ × Dict ℕ (List ℕ)) := do
  let row ← rowAfter limit acc.1 r.1 hypothesis
  let kept := (r.2 + 1) % block = 0 ∨ r.2 + 1 = reference.length
  pure (row, if kept then acc.2.set (r.2 + 1) row else acc.2)

/-- The forward pass: the rows kept. -/
def forward : Option (Dict ℕ (List ℕ)) := do
  let first ← (List.range (hypothesis.length + 1)).foldlM (pack limit) []
  let (_, checkpoints) ← reference.zipIdx.foldlM (keepRow reference hypothesis limit block)
    (first, [(0, first)])
  pure checkpoints

/-- One row of a block. -/
def replayRow (acc : List (List ℕ) × List ℕ) (refToken : α) :
    Option (List (List ℕ) × List ℕ) := do
  let r ← rowAfter limit acc.2 refToken hypothesis
  pure (acc.1 ++ [r], r)

/-- The rows of a block, from its checkpoint. -/
def blockRows (checkpoints : Dict ℕ (List ℕ)) (lo hi : ℕ) : Option (List (List ℕ)) := do
  let first ← checkpoints.get? lo
  let (rows, _) ← ((reference.drop lo).take (hi - lo)).foldlM (replayRow hypothesis limit)
    ([first], first)
  pure rows

/-- The turn of a block, `t.i` being the row within it. -/
def blockTurn (rows : List (List ℕ)) (lo : ℕ) (t : Trace) : Trace :=
  t.turn (reference[lo + t.i - 1]? == hypothesis[t.j - 1]?) ((rows[t.i]?).getD [])
    ((rows[if 0 < t.i then t.i - 1 else 0]?).getD [])

/-- `while local_i > 0 or (lo == 0 and j > 0)`. -/
def blockTest (lo : ℕ) (t : Trace) : Bool := decide (0 < t.i ∨ lo = 0 ∧ 0 < t.j)

/-- The backward pass, for at most `fuel` blocks. -/
def backward (checkpoints : Dict ℕ (List ℕ)) : (fuel : ℕ) → Trace → Option Trace
  | 0, t => if t.test then none else some t
  | fuel + 1, t =>
    if t.test then do
      let lo := if 0 < t.i then (t.i - 1) / block * block else 0
      let rows ← blockRows reference hypothesis limit checkpoints lo t.i
      let t ← While.whileLoop (blockTest lo) (blockTurn reference hypothesis rows lo)
        (t.i - lo + t.j) { t with i := t.i - lo }
      backward checkpoints fuel { t with i := lo }
    else some t

/-- `_checkpointed_counts`. -/
def checkpointedCounts : Option (ℕ × ℕ × ℕ) :=
  let n := reference.length
  let m := hypothesis.length
  if n = 0 then some (0, 0, m)
  else if m = 0 then some (0, n, 0)
  else do
    let limit := typeLimit n m
    let block := max 1 (Nat.sqrt n)
    let checkpoints ← forward reference hypothesis limit block
    let t ← backward reference hypothesis limit block checkpoints n { i := n, j := m }
    pure t.counts

end Checkpointed

end Metrics

end Myna

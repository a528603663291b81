import Mathlib.Algebra.Field.Rat
import Myna.Lib.Dict

/-!
# JSON values, and reading records from them

A JSON document once it has been parsed, and the readers that turn its values into typed data. A
reader fails with `none`; a record is read field by field, with a default for one that is missing.

* **`Json.field`**, **`Json.optional`** — a field of an object;
* **`readAll_map`** — a list of values that are written and read one by one.
-/

inductive Json
  | null
  | bool (b : Bool)
  | int (n : ℤ)
  | float (x : ℚ)
  | str (s : String)
  | arr (items : List Json)
  | obj (fields : List (String × Json))

namespace Json

/-- The value of a key, for an object. -/
def get? : Json → String → Option Json
  | .obj fields, key => Dict.get? fields key
  | _, _ => none

def asStr : Json → Option String
  | .str s => some s
  | _ => none

/-- An integer that fits into 64 bits. -/
def asU64 : Json → Option ℕ
  | .int (.ofNat n) => if n < 2 ^ 64 then some n else none
  | _ => none

/-- An integer that fits into 32 bits. -/
def readU32 : Json → Option UInt32
  | .int (.ofNat n) => if n < 2 ^ 32 then some (UInt32.ofNat n) else none
  | _ => none

def readF64 : Json → Option ℚ
  | .float x => some x
  | .int n => some n
  | _ => none

variable {α : Type}

def readOption (read : Json → Option α) : Json → Option (Option α)
  | .null => some none
  | value => (read value).map some

def readAll (read : Json → Option α) : Json → Option (List α)
  | .arr items => items.mapM read
  | _ => none

/-- A field of an object, with what a missing one stands for, if it may be missing. -/
def field (data : Json) (key : String) (missing : Option α) (read : Json → Option α) : Option α :=
  match data.get? key with
  | some value => read value
  | none => missing

/-- A string or null. -/
def ofOption : Option String → Json
  | some s => .str s
  | none => .null

@[simp] theorem readOption_ofOption (s : Option String) :
    readOption asStr (ofOption s) = some s := by
  cases s <;> rfl

/-- What is written value by value is read value by value. -/
theorem readAll_map {β : Type} {write : β → Json} {read : Json → Option α} {f : β → α}
    (h : ∀ b, read (write b) = some (f b)) (l : List β) :
    readAll read (.arr (l.map write)) = some (l.map f) := by
  show (l.map write).mapM read = some (l.map f)
  induction l with
  | nil => rfl
  | cons b l ih => simp [h, ih]

end Json

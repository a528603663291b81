import Mathlib.Data.Nat.Digits.Defs

/-!
# Bytes escaped in octal

A writer puts a backslash and three octal digits for each byte of some set, and every other byte as
it is; the reader takes a backslash for itself unless three digits of a byte follow it.

* **`unescape_escape`** — the reader undoes a writer that escapes the backslash.
-/

namespace OctalEscape

/-- The backslash. -/
def ESCAPE : UInt8 := 92

def digit (n : ℕ) : UInt8 := UInt8.ofNat (48 + n)

/-- The digits of a byte, the highest first. -/
def digits (b : UInt8) : List UInt8 :=
  [digit (b.toNat / 64), digit (b.toNat / 8 % 8), digit (b.toNat % 8)]

def isDigit (d : UInt8) : Bool := 48 ≤ d && d ≤ 55

/-- The byte of three digits, unless they are none of a byte. -/
def octal (a b c : UInt8) : Option UInt8 :=
  if isDigit a && isDigit b && isDigit c then
    let n := (a.toNat - 48) * 64 + (b.toNat - 48) * 8 + (c.toNat - 48)
    if n < 256 then some (UInt8.ofNat n) else none
  else none

def escape (special : UInt8 → Bool) : List UInt8 → List UInt8
  | [] => []
  | b :: rest =>
    if special b then ESCAPE :: (digits b ++ escape special rest) else b :: escape special rest

def unescape : List UInt8 → List UInt8
  | x :: a :: b :: c :: rest =>
    if x = ESCAPE then
      match octal a b c with
      | some byte => byte :: unescape rest
      | none => x :: unescape (a :: b :: c :: rest)
    else x :: unescape (a :: b :: c :: rest)
  | x :: rest => x :: unescape rest
  | [] => []

theorem octal_digits (b : UInt8) :
    octal (digit (b.toNat / 64)) (digit (b.toNat / 8 % 8)) (digit (b.toNat % 8)) = some b := by
  have hall : ∀ n < 256, octal (digit (n / 64)) (digit (n / 8 % 8)) (digit (n % 8)) =
      some (UInt8.ofNat n) := by decide +kernel
  rw [hall b.toNat b.toNat_lt, UInt8.ofNat_toNat]

theorem unescape_cons_of_ne {x : UInt8} (h : x ≠ ESCAPE) (rest : List UInt8) :
    unescape (x :: rest) = x :: unescape rest := by
  match rest with
  | [] | [_] | [_, _] => rfl
  | a :: b :: c :: rest => exact if_neg h

theorem unescape_octal {a b c byte : UInt8} (h : octal a b c = some byte) (rest : List UInt8) :
    unescape (ESCAPE :: a :: b :: c :: rest) = byte :: unescape rest := by
  rw [unescape, if_pos rfl, h]

/-- **The reader undoes the writer.** Induction on what is written. -/
theorem unescape_escape {special : UInt8 → Bool} (h : special ESCAPE = true) (bytes : List UInt8) :
    unescape (escape special bytes) = bytes := by
  induction bytes with
  | nil => rfl
  | cons b rest ih =>
    rw [escape]
    by_cases hb : special b = true
    · rw [if_pos hb]
      show unescape (ESCAPE :: _ :: _ :: _ :: escape special rest) = _
      rw [unescape_octal (octal_digits b), ih]
    · have hne : b ≠ ESCAPE := fun heq => hb (heq ▸ h)
      rw [if_neg hb, unescape_cons_of_ne hne, ih]

theorem isDigit_digit {n : ℕ} (h : n < 8) : isDigit (digit n) = true := by
  have hall : ∀ n < 8, isDigit (digit n) = true := by decide
  exact hall n h

theorem isDigit_of_mem_digits {b d : UInt8} (h : d ∈ digits b) : isDigit d = true := by
  have hb := b.toNat_lt
  rw [digits, List.mem_cons, List.mem_cons, List.mem_singleton] at h
  rcases h with rfl | rfl | rfl
  · exact isDigit_digit (by omega)
  · exact isDigit_digit (by omega)
  · exact isDigit_digit (by omega)

/-- No byte that is escaped is left in what is written, but for the backslash. -/
theorem notMem_escape {special : UInt8 → Bool} {x : UInt8} (hx : special x = true)
    (hescape : x ≠ ESCAPE) (hdigit : isDigit x = false) (bytes : List UInt8) :
    x ∉ escape special bytes := by
  induction bytes with
  | nil => exact List.not_mem_nil
  | cons b rest ih =>
    rw [escape]
    by_cases hb : special b = true
    · rw [if_pos hb, List.mem_cons, List.mem_append]
      rintro (rfl | hmem | hmem)
      · exact hescape rfl
      · rw [isDigit_of_mem_digits hmem] at hdigit
        cases hdigit
      · exact ih hmem
    · rw [if_neg hb, List.mem_cons]
      rintro (rfl | hmem)
      · exact hb hx
      · exact ih hmem

end OctalEscape

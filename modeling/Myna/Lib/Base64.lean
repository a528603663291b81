import Mathlib.Data.List.Basic
import Mathlib.Tactic.Common

/-!
# Base64

Three bytes are four characters of six bits, and what is missing of the last three is padded. The
reader is a lenient one: it passes over what is no character of the alphabet, and a text that ends
within a group is no base64.

* **`encode`**, **`decode`** — the writer and the lenient reader;
* **`decode_encode`** — what was written is read.
-/

namespace Base64

def alphabet : List Char :=
  "ABCDEFGHIJKLMNOPQRSTUVWXYZabcdefghijklmnopqrstuvwxyz0123456789+/".toList

/-- The character of six bits. -/
def digit (n : ℕ) : Char := alphabet.getD n '='

/-- The six bits of a character. -/
def value (c : Char) : Option ℕ := alphabet.findIdx? fun other => other = c

def encode : List UInt8 → List Char
  | [] => []
  | [a] => [digit (a.toNat / 4), digit (a.toNat % 4 * 16), '=', '=']
  | [a, b] =>
    [digit (a.toNat / 4), digit (a.toNat % 4 * 16 + b.toNat / 16), digit (b.toNat % 16 * 4), '=']
  | a :: b :: c :: rest =>
    digit (a.toNat / 4) :: digit (a.toNat % 4 * 16 + b.toNat / 16) ::
      digit (b.toNat % 16 * 4 + c.toNat / 64) :: digit (c.toNat % 64) :: encode rest

/-- The reader after `quad` characters of a group, of which `left` are the bits to come, and `pads`
characters of padding. -/
def decodeFrom (quad left pads : ℕ) : List Char → Option (List UInt8)
  | [] => if quad = 0 then some [] else none
  | c :: rest =>
    if c = '=' then
      if 2 ≤ quad then
        -- the padding is complete, and what follows it is not read
        if 4 ≤ quad + (pads + 1) then some [] else decodeFrom quad left (pads + 1) rest
      else decodeFrom quad left pads rest
    else
      match value c, quad with
      | none, _ => decodeFrom quad left pads rest
      | some n, 0 => decodeFrom 1 n 0 rest
      | some n, 1 => (decodeFrom 2 (n % 16) 0 rest).map (.ofNat (left * 4 + n / 16) :: ·)
      | some n, 2 => (decodeFrom 3 (n % 4) 0 rest).map (.ofNat (left * 16 + n / 4) :: ·)
      | some n, _ => (decodeFrom 0 0 0 rest).map (.ofNat (left * 64 + n) :: ·)

attribute [local simp] decodeFrom

def decode (text : List Char) : Option (List UInt8) := decodeFrom 0 0 0 text

/-! ## Round trip -/

theorem value_digit {n : ℕ} (h : n < 64) : digit n ≠ '=' ∧ value (digit n) = some n := by
  have hall : ∀ n < 64, digit n ≠ '=' ∧ value (digit n) = some n := by decide +kernel
  exact hall n h

variable {left pads n : ℕ} {rest : List Char}

theorem decodeFrom_zero (h : n < 64) :
    decodeFrom 0 left pads (digit n :: rest) = decodeFrom 1 n 0 rest := by
  simp only [decodeFrom, if_neg (value_digit h).1, (value_digit h).2]

theorem decodeFrom_one (h : n < 64) : decodeFrom 1 left pads (digit n :: rest) =
    (decodeFrom 2 (n % 16) 0 rest).map (.ofNat (left * 4 + n / 16) :: ·) := by
  simp only [decodeFrom, if_neg (value_digit h).1, (value_digit h).2]

theorem decodeFrom_two (h : n < 64) : decodeFrom 2 left pads (digit n :: rest) =
    (decodeFrom 3 (n % 4) 0 rest).map (.ofNat (left * 16 + n / 4) :: ·) := by
  simp only [decodeFrom, if_neg (value_digit h).1, (value_digit h).2]

theorem decodeFrom_three (h : n < 64) : decodeFrom 3 left pads (digit n :: rest) =
    (decodeFrom 0 0 0 rest).map (.ofNat (left * 64 + n) :: ·) := by
  simp only [decodeFrom, if_neg (value_digit h).1, (value_digit h).2]

theorem first_byte (a : UInt8) {n : ℕ} (h : n < 16) :
    UInt8.ofNat (a.toNat / 4 * 4 + (a.toNat % 4 * 16 + n) / 16) = a := by
  have heq : a.toNat / 4 * 4 + (a.toNat % 4 * 16 + n) / 16 = a.toNat := by omega
  rw [heq, UInt8.ofNat_toNat]

theorem second_byte (a b : UInt8) {n : ℕ} (h : n < 4) :
    UInt8.ofNat ((a.toNat % 4 * 16 + b.toNat / 16) % 16 * 16 + (b.toNat % 16 * 4 + n) / 4) = b := by
  have hb := b.toNat_lt
  have heq : (a.toNat % 4 * 16 + b.toNat / 16) % 16 * 16 + (b.toNat % 16 * 4 + n) / 4 =
      b.toNat := by omega
  rw [heq, UInt8.ofNat_toNat]

theorem third_byte (b c : UInt8) :
    UInt8.ofNat ((b.toNat % 16 * 4 + c.toNat / 64) % 4 * 64 + c.toNat % 64) = c := by
  have hc := c.toNat_lt
  have heq : (b.toNat % 16 * 4 + c.toNat / 64) % 4 * 64 + c.toNat % 64 = c.toNat := by omega
  rw [heq, UInt8.ofNat_toNat]

/-- **What was written is read.** Three bytes a step, and at last what is padded. -/
theorem decode_encode (bytes : List UInt8) : decode (encode bytes) = some bytes := by
  unfold decode
  fun_induction encode bytes with
  | case1 => rfl
  | case2 a =>
    have ha := a.toNat_lt
    rw [decodeFrom_zero (by omega), decodeFrom_one (by omega)]
    simpa using first_byte a (n := 0) (by omega)
  | case3 a b =>
    have ha := a.toNat_lt
    have hb := b.toNat_lt
    rw [decodeFrom_zero (by omega), decodeFrom_one (by omega), decodeFrom_two (by omega),
      first_byte a (by omega)]
    simpa using second_byte a b (n := 0) (by omega)
  | case4 a b c rest ih =>
    have ha := a.toNat_lt
    have hb := b.toNat_lt
    have hc := c.toNat_lt
    rw [decodeFrom_zero (by omega), decodeFrom_one (by omega), decodeFrom_two (by omega),
      decodeFrom_three (by omega), ih, first_byte a (by omega), second_byte a b (by omega),
      third_byte b c]
    rfl

end Base64

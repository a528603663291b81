import Myna.Config.SnapdBodies

/-!
# Myna — snapd's well-formed responses

`WellFormed sent body` says that what is sent is a response within the limits that carries `body`,
in any of the three framings; a chunk's line may have leading zeros, digits of any case and an
extension.

* **`decodeChunked_framed`** — a step takes off a chunk as it is framed;
* **`readChunked_chunked`** — a well-formed chunked body is decoded.
-/

namespace Myna

namespace Config

namespace Snapd

variable {std : Std} {body : Bytes}

/-- A chunk's first line: its length in hexadecimal, maybe an extension, and no line break. -/
def ChunkLine (std : Std) (line : Bytes) (size : ℕ) : Prop :=
  findCrlf (line ++ CRLF) = some line.length ∧
    ∃ digits blanks extension : List Char,
      std.fromUtf8 line = .ok (digits ++ blanks ++ extension) ∧
      (digits ≠ [] ∧ ∀ c ∈ digits, isAsciiHexdigit c = true) ∧
      (∀ c ∈ blanks, Desktop.isWhitespace c = true) ∧
      (∀ c ∈ extension.head?, c = ';') ∧
      digits.foldl (fun n c => 16 * n + hexdigitValue c) 0 = size

/-- A chunked payload, and the body it carries in chunks that are within their limit. -/
inductive Chunked (std : Std) : Bytes → Bytes → Prop
  | last {line : Bytes} (hline : ChunkLine std line 0) : Chunked std (line ++ CRLF ++ CRLF) []
  | chunk {line data payload body : Bytes} (hline : ChunkLine std line data.length)
      (hne : data ≠ []) (hroom : data.length ≤ MAX_CHUNK_BYTES) (hrest : Chunked std payload body) :
      Chunked std (line ++ CRLF ++ (data ++ (CRLF ++ payload))) (data ++ body)

/-- The payload carries the body in the framing of the headers. -/
def Carries (std : Std) (headers : Headers) (payload body : Bytes) : Prop :=
  match headers.contentLength with
  | some len => payload = body ∧ len = body.length
  | none => if headers.chunked then Chunked std payload body else payload = body

/-- The body is a text, and snapd's status or envelope says what it is. -/
def Accepted (std : Std) (headers : Headers) (body : Bytes) : Prop :=
  ∃ text, std.fromUtf8 body = .ok text ∧
    (200 ≤ headers.statusCode ∧ headers.statusCode < 300 ∨
      std.envelopeType text = some "error".toList)

/-- A response whose header block, body and chunks are within their limits. -/
inductive WellFormed (std : Std) : Bytes → Bytes → Prop
  | response {block payload body : Bytes} {headers : Headers}
      (hblock : findDoubleCrlf (block ++ (CRLF ++ CRLF ++ payload)) = some block.length)
      (hshort : block.length + 4 ≤ MAX_HEADER_BYTES) (hheaders : headersOf std block = .ok headers)
      (hcarries : Carries std headers payload body) (hroom : body.length ≤ MAX_RESPONSE_BYTES)
      (haccepted : Accepted std headers body) :
      WellFormed std (block ++ (CRLF ++ CRLF ++ payload)) body

theorem isAsciiHexdigit_bare {c : Char} (h : isAsciiHexdigit c = true) :
    Desktop.isWhitespace c = false ∧ c ≠ ';' := by
  simp only [isAsciiHexdigit, isAsciiDigit, Bool.or_eq_true, Bool.and_eq_true, decide_eq_true_eq,
    Char.le_def, UInt32.le_iff_toNat_le] at h
  constructor
  · change ((48 ≤ c.toNat ∧ c.toNat ≤ 57) ∨ (97 ≤ c.toNat ∧ c.toNat ≤ 102)) ∨
      (65 ≤ c.toNat ∧ c.toNat ≤ 70) at h
    simp [Desktop.isWhitespace]
    omega
  · rintro rfl
    revert h
    decide

theorem isWhitespace_ne {c : Char} (h : Desktop.isWhitespace c = true) : c ≠ ';' := by
  rintro rfl
  revert h
  decide

theorem chunkSize_of_chunkLine {line : Bytes} {size : ℕ} (h : ChunkLine std line size)
    (hroom : size ≤ MAX_CHUNK_BYTES) : chunkSize std line = .ok size := by
  obtain ⟨-, digits, blanks, extension, htext, ⟨hne, hhex⟩, hblanks, hext, hvalue⟩ := h
  have hfront : (digits ++ blanks ++ extension).takeWhile (· ≠ ';') = digits ++ blanks := by
    have hnone : extension.takeWhile (· ≠ ';') = [] := by
      cases extension with
      | nil => rfl
      | cons c extension =>
        have hc : c = ';' := hext c rfl
        simp [hc]
    rw [List.takeWhile_append_of_pos, hnone, List.append_nil]
    intro c hc
    rcases List.mem_append.mp hc with hc | hc
    · simpa using (isAsciiHexdigit_bare (hhex c hc)).2
    · simpa using isWhitespace_ne (hblanks c hc)
  have htrim : trim (digits ++ blanks) = digits := by
    have hclean : List.Clean Desktop.isWhitespace digits := by
      constructor
      · intro c hc
        exact (isAsciiHexdigit_bare (hhex c (List.mem_of_mem_head? hc))).1
      · intro c hc
        exact (isAsciiHexdigit_bare (hhex c (List.mem_of_mem_getLast? hc))).1
    rw [trim, List.strip_append_of_all _ hblanks, List.strip_of_clean hclean]
  have hall : digits.all isAsciiHexdigit = true := List.all_eq_true.mpr hhex
  have hsmall : ¬2 ^ 64 ≤ size := by
    have hmax : MAX_CHUNK_BYTES < 2 ^ 64 := by decide
    omega
  simp only [chunkSize, htext, hfront, htrim, hvalue]
  rw [if_neg (by simp [hne, hall]), if_neg hsmall, if_neg (Nat.not_lt.mpr hroom)]

/-- A chunk as it is framed is what a step takes off. -/
theorem decodeChunked_framed {line : Bytes} (data after : Bytes)
    (hline : ChunkLine std line data.length) (hroom : data.length ≤ MAX_CHUNK_BYTES) :
    decodeChunked std (line ++ CRLF ++ (data ++ (CRLF ++ after))) =
      .ok (if data = [] then .complete after else .chunk data after) := by
  have hcrlf : CRLF.length = 2 := rfl
  have hfind : findCrlf (line ++ CRLF ++ (data ++ (CRLF ++ after))) = some line.length :=
    List.position_append hline.1
  have htake : (line ++ CRLF ++ (data ++ (CRLF ++ after))).take line.length = line := by
    rw [List.append_assoc, List.take_left]
  have hdata : (line ++ CRLF ++ (data ++ (CRLF ++ after))).drop (line.length + 2) =
      data ++ (CRLF ++ after) := List.drop_left' (by simp [hcrlf])
  have hend : (line ++ CRLF ++ (data ++ (CRLF ++ after))).drop (line.length + 2 + data.length) =
      CRLF ++ after := by
    rw [← List.drop_drop, hdata, List.drop_left]
  have hafter : (line ++ CRLF ++ (data ++ (CRLF ++ after))).drop
      (line.length + 2 + data.length + 2) = after := by
    rw [← List.drop_drop, hend]
    rfl
  have hlong : ¬(line ++ CRLF ++ (data ++ (CRLF ++ after))).length <
      line.length + 2 + data.length + 2 := by
    simp only [List.length_append, hcrlf]
    omega
  simp only [decodeChunked, hfind, htake, chunkSize_of_chunkLine hline hroom, bind, Except.bind,
    if_neg hlong, hend, hafter, hdata]
  rw [if_neg (by simp [CRLF])]
  cases data with
  | nil => rfl
  | cons b data => simp

/-- **A well-formed chunked body is decoded**, when everything is there at once. -/
theorem readChunked_chunked {payload : Bytes} {before : Bytes} (h : Chunked std payload body)
    (hroom : before.length + body.length ≤ MAX_RESPONSE_BYTES) :
    readChunked std before payload [] = .ok (before ++ body) := by
  induction h generalizing before with
  | @last line hline =>
    have hstep : decodeChunked std (line ++ CRLF ++ CRLF) = .ok (.complete []) :=
      decodeChunked_framed [] [] hline (Nat.zero_le _)
    rw [readChunked_complete hstep, List.append_nil]
  | @chunk line data payload body hline hne hfits hrest ih =>
    have hstep := decodeChunked_framed data payload hline hfits
    rw [if_neg hne] at hstep
    rw [List.length_append] at hroom
    rw [readChunked_chunk hstep, if_neg (by omega), ih (by rw [List.length_append]; omega),
      List.append_assoc]

end Snapd

end Config

end Myna

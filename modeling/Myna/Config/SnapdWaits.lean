import Myna.Config.SnapdResponse

/-!
# Myna — what `read_response` waits for

Each loop of `read_response` waits for a number of bytes that what is sent decides: the header block
with its blank line (`headNeed`), or a chunk with its line and line breaks (`chunkNeed`).

* **`readHead_eq`** — the first loop waits for the header block;
* **`decodeChunked_short`**, **`decodeChunked_long`** — a step before and after its chunk is there;
* **`readChunked_eq`** — the loop over the chunks waits for each of them.
-/

namespace Myna

namespace Config

namespace Snapd

variable {std : Std}

/-! ## The header block -/

/-- The bytes up to the end of the blank line. -/
def headNeed (sent : Bytes) : ℕ :=
  match findDoubleCrlf sent with
  | some headerEnd => headerEnd + 4
  | none => sent.length + 1

/-- What the first loop makes of having waited. -/
def headOutcome (sent : Bytes) : List.Awaited UInt8 → Except SnapdError (ℕ × Bytes × List Bytes)
  | .got buffer reads => .ok ((findDoubleCrlf sent).getD 0, buffer, reads)
  | .full => .error headersExceeded
  | .closed buffer => .error (closedInHeaders buffer)

theorem findDoubleCrlf_short {buffer more : Bytes}
    (h : buffer.length < headNeed (buffer ++ more)) : findDoubleCrlf buffer = none := by
  refine List.position_eq_none more fun j hj => ?_
  have hneed : headNeed (buffer ++ more) = j + 4 := by simp only [headNeed, findDoubleCrlf, hj]
  rw [hneed] at h
  exact h

theorem findDoubleCrlf_long {buffer more : Bytes}
    (h : headNeed (buffer ++ more) ≤ buffer.length) :
    findDoubleCrlf buffer = some ((findDoubleCrlf (buffer ++ more)).getD 0) := by
  unfold headNeed at h
  split at h
  · next headerEnd hfind =>
    rw [hfind, Option.getD_some]
    exact List.position_of_append hfind h
  · rw [List.length_append] at h
    omega

/-- **The first loop waits for the header block.** -/
theorem readHead_eq (buffer : Bytes) (reads : List Bytes) :
    readHead buffer reads = headOutcome (buffer ++ reads.flatten)
      (List.await MAX_HEADER_BYTES (headNeed (buffer ++ reads.flatten)) buffer reads) := by
  induction reads generalizing buffer with
  | nil =>
    rw [readHead]
    rcases Nat.lt_or_ge buffer.length (headNeed (buffer ++ [].flatten)) with hlt | hge
    · rw [findDoubleCrlf_short hlt]
      rcases Nat.lt_or_ge buffer.length MAX_HEADER_BYTES with hroom | hfull
      · simp only [List.await, if_neg (Nat.not_le.mpr hlt), if_neg (Nat.not_le.mpr hroom),
          headOutcome]
      · simp only [if_pos hfull, List.await_full hlt hfull, headOutcome]
    · rw [findDoubleCrlf_long hge, List.await_got hge]
      rfl
  | cons bytes reads ih =>
    rw [readHead]
    rcases Nat.lt_or_ge buffer.length (headNeed (buffer ++ (bytes :: reads).flatten)) with hlt | hge
    · rw [findDoubleCrlf_short hlt]
      rcases Nat.lt_or_ge buffer.length MAX_HEADER_BYTES with hroom | hfull
      · rw [List.await_read hlt hroom, List.flatten_cons, ← List.append_assoc, ← ih]
        simp only [if_neg (Nat.not_le.mpr hroom)]
      · simp only [if_pos hfull, List.await_full hlt hfull, headOutcome]
    · rw [findDoubleCrlf_long hge, List.await_got hge]
      rfl

/-! ## One chunk -/

/-- The bytes a step needs before it decides. -/
def chunkNeed (std : Std) (sent : Bytes) : ℕ :=
  match findCrlf sent with
  | none => sent.length + 1
  | some lineEnd =>
    match chunkSize std (sent.take lineEnd) with
    | .error _ => lineEnd + 2
    | .ok size => lineEnd + 2 + size + 2

theorem chunkNeed_pos (sent : Bytes) : 0 < chunkNeed std sent := by
  unfold chunkNeed
  split
  · omega
  · split <;> omega

/-- A step with `more` behind what it read. -/
def ChunkStep.extend (more : Bytes) : ChunkStep → ChunkStep
  | .chunk data rest => .chunk data (rest ++ more)
  | .needMore => .needMore
  | .complete rest => .complete (rest ++ more)

/-- Before its chunk is there, a step asks for more, or is over the limit of a line. -/
theorem decodeChunked_short {pending more : Bytes}
    (h : pending.length < chunkNeed std (pending ++ more)) :
    decodeChunked std pending = .ok .needMore ∨
      decodeChunked std pending = .error .responseTooLarge ∧ MAX_CHUNK_BYTES < pending.length := by
  cases hfind : findCrlf pending with
  | none =>
    simp only [decodeChunked, hfind]
    split
    · next hlong => exact .inr ⟨rfl, hlong⟩
    · exact .inl rfl
  | some lineEnd =>
    have hlong := List.position_le hfind
    have hsent : findCrlf (pending ++ more) = some lineEnd := List.position_append hfind
    have htake : (pending ++ more).take lineEnd = pending.take lineEnd :=
      List.take_append_of_le_length (by omega)
    simp only [chunkNeed, hsent, htake] at h
    have hcrlf : CRLF.length = 2 := rfl
    cases hsize : chunkSize std (pending.take lineEnd) with
    | error e =>
      rw [hsize] at h
      dsimp only at h
      omega
    | ok size =>
      rw [hsize] at h
      simp only [decodeChunked, hfind, hsize, bind, Except.bind]
      rw [if_pos h]
      exact .inl rfl

/-- With its chunk there, a step decides, whatever is behind it. -/
theorem decodeChunked_long {pending more : Bytes}
    (h : chunkNeed std (pending ++ more) ≤ pending.length) :
    decodeChunked std (pending ++ more) =
        (decodeChunked std pending).map (ChunkStep.extend more) ∧
      decodeChunked std pending ≠ .ok .needMore := by
  have hcrlf : CRLF.length = 2 := rfl
  cases hsent : findCrlf (pending ++ more) with
  | none =>
    simp only [chunkNeed, hsent, List.length_append] at h
    omega
  | some lineEnd =>
    have hline : lineEnd + 2 ≤ pending.length := by
      simp only [chunkNeed, hsent] at h
      split at h <;> omega
    have hfind : findCrlf pending = some lineEnd := List.position_of_append hsent hline
    have htake : (pending ++ more).take lineEnd = pending.take lineEnd :=
      List.take_append_of_le_length (by omega)
    simp only [chunkNeed, hsent, htake] at h
    simp only [decodeChunked, hsent, hfind, htake]
    cases hsize : chunkSize std (pending.take lineEnd) with
    | error e => exact ⟨rfl, by simp [bind, Except.bind]⟩
    | ok size =>
      rw [hsize] at h
      dsimp only at h
      have hall : ¬(pending ++ more).length < lineEnd + 2 + size + 2 := by
        rw [List.length_append]
        omega
      have hdrop : ∀ n ≤ pending.length, (pending ++ more).drop n = pending.drop n ++ more :=
        fun n hn => List.drop_append_of_le_length hn
      simp only [bind, Except.bind, if_neg hall, if_neg (Nat.not_lt.mpr h)]
      rw [hdrop _ (by omega), hdrop _ (by omega), hdrop _ (by omega),
        List.take_append_of_le_length (by rw [List.length_drop]; omega),
        List.take_append_of_le_length (by rw [List.length_drop]; omega)]
      split
      · exact ⟨rfl, by simp⟩
      · split
        · exact ⟨rfl, by simp⟩
        · exact ⟨rfl, by simp⟩

/-! ## The loop over the chunks -/

section Loop

variable {body pending data rest : Bytes} {reads : List Bytes}

theorem readChunked_error {e : SnapdError} (h : decodeChunked std pending = .error e) :
    readChunked std body pending reads = .error e := by
  rw [readChunked.eq_def]
  split <;> simp_all

theorem readChunked_complete (h : decodeChunked std pending = .ok (.complete rest)) :
    readChunked std body pending reads = .ok body := by
  rw [readChunked.eq_def]
  split <;> simp_all

theorem readChunked_chunk (h : decodeChunked std pending = .ok (.chunk data rest)) :
    readChunked std body pending reads =
      if MAX_RESPONSE_BYTES < body.length + data.length then .error .responseTooLarge
      else readChunked std (body ++ data) rest reads := by
  rw [readChunked.eq_def]
  split <;> simp_all

theorem readChunked_needMore (h : decodeChunked std pending = .ok .needMore) :
    readChunked std body pending reads =
      if MAX_CHUNK_BYTES ≤ pending.length then .error .responseTooLarge
      else
        match reads with
        | [] => .error (closedInChunks pending)
        | bytes :: reads => readChunked std body (pending ++ bytes) reads := by
  rw [readChunked.eq_def]
  cases reads <;> split <;> simp_all

/-- What the loop over the chunks makes of having waited for the next one. -/
def chunkOutcome (std : Std) (body : Bytes) : List.Awaited UInt8 → Except SnapdError Bytes
  | .got buffer reads => readChunked std body buffer reads
  | .full => .error .responseTooLarge
  | .closed buffer => .error (closedInChunks buffer)

/-- **The loop over the chunks waits for each of them.** -/
theorem readChunked_eq (body pending : Bytes) (reads : List Bytes) :
    readChunked std body pending reads = chunkOutcome std body
      (List.await MAX_CHUNK_BYTES (chunkNeed std (pending ++ reads.flatten)) pending reads) := by
  induction reads generalizing pending with
  | nil =>
    rcases Nat.lt_or_ge pending.length (chunkNeed std (pending ++ [].flatten)) with hlt | hge
    · rcases decodeChunked_short hlt with hmore | ⟨hlarge, hlong⟩
      · rw [readChunked_needMore hmore]
        rcases Nat.lt_or_ge pending.length MAX_CHUNK_BYTES with hroom | hfull
        · simp only [List.await, if_neg (Nat.not_le.mpr hlt), if_neg (Nat.not_le.mpr hroom),
            chunkOutcome]
        · rw [if_pos hfull, List.await_full hlt hfull, chunkOutcome]
      · rw [readChunked_error hlarge, List.await_full hlt hlong.le, chunkOutcome]
    · rw [List.await_got hge, chunkOutcome]
  | cons bytes reads ih =>
    rcases Nat.lt_or_ge pending.length (chunkNeed std (pending ++ (bytes :: reads).flatten)) with
      hlt | hge
    · rcases decodeChunked_short hlt with hmore | ⟨hlarge, hlong⟩
      · rw [readChunked_needMore hmore]
        rcases Nat.lt_or_ge pending.length MAX_CHUNK_BYTES with hroom | hfull
        · rw [List.await_read hlt hroom, List.flatten_cons, ← List.append_assoc, ← ih,
            if_neg (Nat.not_le.mpr hroom)]
        · rw [if_pos hfull, List.await_full hlt hfull, chunkOutcome]
      · rw [readChunked_error hlarge, List.await_full hlt hlong.le, chunkOutcome]
    · rw [List.await_got hge, chunkOutcome]

end Loop

end Snapd

end Config

end Myna

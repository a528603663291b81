import Myna.Config.SnapdWaits

/-!
# Myna — a chunked body, however it arrives

`chunksOf` are the chunks of what is sent, with how it ends. The loop bounds what is pending and not
the chunk, so a chunk just over the bound (`Within` fails) is refused or read, as the reads fall;
one that no read reaches beyond (`Over`) is always refused.

* **`readChunked_of_within`** — with every chunk within the bound, the loop reads what it would of
  everything at once;
* **`readChunked_of_over`** — over a limit in any case, it never does;
* **`readChunked_ones`**, **`exists_readChunked_whole`** — otherwise both happen.
-/

namespace Myna

namespace Config

namespace Snapd

variable {std : Std} {body pending data rest sent : Bytes} {reads : List Bytes}

/-! ## What a step says of what was sent -/

/-- What a step leaves in the buffer. -/
def ChunkStep.left : ChunkStep → Option Bytes
  | .chunk _ rest => some rest
  | .needMore => none
  | .complete rest => some rest

theorem decodeChunked_left {step : ChunkStep} (h : decodeChunked std sent = .ok step)
    (hrest : step.left = some rest) :
    chunkNeed std sent ≤ sent.length ∧ rest = sent.drop (chunkNeed std sent) := by
  unfold decodeChunked at h
  split at h
  · split at h <;> cases h
    cases hrest
  · next lineEnd hfind =>
    cases hsize : chunkSize std (sent.take lineEnd) with
    | error e =>
      rw [hsize] at h
      cases h
    | ok size =>
      have hneed : chunkNeed std sent = lineEnd + 2 + size + 2 := by
        simp only [chunkNeed, hfind, hsize]
      rw [hneed]
      simp only [hsize, bind, Except.bind] at h
      split at h
      · cases h
        cases hrest
      · next hlong =>
        split at h
        · cases h
        · split at h <;> cases h <;> cases hrest
          · exact ⟨Nat.not_lt.mp hlong, rfl⟩
          · exact ⟨Nat.not_lt.mp hlong, rfl⟩

theorem decodeChunked_needMore (h : decodeChunked std sent = .ok .needMore) :
    sent.length < chunkNeed std sent := by
  by_contra hge
  have hneed : chunkNeed std (sent ++ []) ≤ sent.length := by
    rw [List.append_nil]
    exact Nat.not_lt.mp hge
  exact (decodeChunked_long hneed).2 h

/-- A step that fails has its line, or has gone on too long without one. -/
theorem decodeChunked_error {e : SnapdError} (h : decodeChunked std sent = .error e) :
    chunkNeed std sent ≤ sent.length ∨
      e = .responseTooLarge ∧ MAX_CHUNK_BYTES < sent.length ∧
        chunkNeed std sent = sent.length + 1 := by
  rcases Nat.lt_or_ge sent.length (chunkNeed std sent) with hlt | hge
  · right
    have hneed : sent.length < chunkNeed std (sent ++ []) := by rwa [List.append_nil]
    rcases decodeChunked_short hneed with hmore | ⟨hlarge, hlong⟩
    · rw [hmore] at h
      cases h
    · rw [hlarge] at h
      refine ⟨(Except.error.inj h).symm, hlong, ?_⟩
      -- with a line, a step that is short of its chunk asks for more
      cases hfind : findCrlf sent with
      | none => simp only [chunkNeed, hfind]
      | some lineEnd =>
        have hline := List.position_le hfind
        have hcrlf : CRLF.length = 2 := rfl
        simp only [chunkNeed, hfind] at hlt
        cases hsize : chunkSize std (sent.take lineEnd) with
        | error e =>
          rw [hsize] at hlt
          dsimp only at hlt
          omega
        | ok size =>
          rw [hsize] at hlt
          simp only [decodeChunked, hfind, hsize, bind, Except.bind, if_pos hlt] at hlarge
          cases hlarge
  · exact .inl hge

/-- A step over a whole chunk, from a step over all that was sent. -/
theorem decodeChunked_got {buffer more : Bytes} {step : ChunkStep}
    (h : decodeChunked std (buffer ++ more) = .ok step)
    (hneed : chunkNeed std (buffer ++ more) ≤ buffer.length) :
    ∃ step', decodeChunked std buffer = .ok step' ∧ step = step'.extend more := by
  have hlong := (decodeChunked_long hneed).1
  rw [h] at hlong
  cases hstep : decodeChunked std buffer with
  | error e =>
    rw [hstep] at hlong
    cases hlong
  | ok step' =>
    rw [hstep] at hlong
    exact ⟨step', rfl, Except.ok.inj hlong⟩

/-- A chunk by itself leaves nothing. -/
theorem decodeChunked_take_chunk (h : decodeChunked std sent = .ok (.chunk data rest)) :
    decodeChunked std (sent.take (chunkNeed std sent)) = .ok (.chunk data []) := by
  obtain ⟨hlong, hrest⟩ := decodeChunked_left h rfl
  have hwhole : sent.take (chunkNeed std sent) ++ rest = sent := by
    rw [hrest, List.take_append_drop]
  rw [← hwhole] at h
  obtain ⟨step, hdecode, hextend⟩ := decodeChunked_got h
    (by rw [hwhole, List.length_take_of_le hlong])
  cases step with
  | chunk data' rest' =>
    obtain ⟨rfl, hself⟩ := ChunkStep.chunk.inj hextend
    rw [hdecode, List.self_eq_append_left.mp hself]
  | needMore => cases hextend
  | complete => cases hextend

/-- A step that is decided is decided without what is behind its chunk. -/
theorem decodeChunked_take (h : chunkNeed std sent ≤ sent.length) :
    decodeChunked std sent = (decodeChunked std (sent.take (chunkNeed std sent))).map
      (ChunkStep.extend (sent.drop (chunkNeed std sent))) := by
  have hwhole : sent.take (chunkNeed std sent) ++ sent.drop (chunkNeed std sent) = sent :=
    List.take_append_drop _ _
  have hneed : chunkNeed std (sent.take (chunkNeed std sent) ++ sent.drop (chunkNeed std sent)) ≤
      (sent.take (chunkNeed std sent)).length := by
    rw [hwhole, List.length_take_of_le h]
  have hlong := (decodeChunked_long hneed).1
  rwa [hwhole] at hlong

/-! ## One chunk of any split -/

/-- `sent` is what is pending and what the reads bring; no read leaves more than this pending. -/
structure Arrives (sent pending : Bytes) (reads : List Bytes) : Prop where
  short : pending.length < MAX_CHUNK_BYTES + READ_BYTES
  whole : pending ++ reads.flatten = sent
  pieces : ∀ bytes ∈ reads, bytes ≠ [] ∧ bytes.length ≤ READ_BYTES

variable (std) in
theorem Arrives.means (h : Arrives sent pending reads) :
    (List.await MAX_CHUNK_BYTES (chunkNeed std sent) pending reads).Means READ_BYTES MAX_CHUNK_BYTES
      (chunkNeed std sent) sent := by
  rw [← h.whole]
  exact List.await_means _ h.short h.pieces

/-- A chunk is refused, which needs one beyond the bound, or it is read. -/
theorem Arrives.chunk (h : Arrives sent pending reads)
    (hstep : decodeChunked std sent = .ok (.chunk data rest)) (body : Bytes) :
    (readChunked std body pending reads = .error .responseTooLarge ∧
      MAX_CHUNK_BYTES < chunkNeed std sent) ∨
    (chunkNeed std sent < MAX_CHUNK_BYTES + READ_BYTES ∧
      ∃ pending' reads', Arrives rest pending' reads' ∧
        readChunked std body pending reads =
          if MAX_RESPONSE_BYTES < body.length + data.length then .error .responseTooLarge
          else readChunked std (body ++ data) pending' reads') := by
  have hmeans := h.means std
  rw [readChunked_eq, h.whole]
  cases hawait : List.await MAX_CHUNK_BYTES (chunkNeed std sent) pending reads with
  | got buffer more =>
    rw [hawait] at hmeans
    obtain ⟨hneed, hshort, hwhole, hpieces⟩ := hmeans
    rw [← hwhole] at hstep hneed
    obtain ⟨step, hdecode, hextend⟩ := decodeChunked_got hstep hneed
    cases step with
    | chunk data' rest' =>
      obtain ⟨rfl, hrest⟩ := ChunkStep.chunk.inj hextend
      have hless := length_rest_of_chunk std hdecode
      refine .inr ⟨?_, rest', more, ⟨by omega, hrest.symm, hpieces⟩, ?_⟩
      · rw [← hwhole]
        omega
      · exact readChunked_chunk hdecode
    | needMore => cases hextend
    | complete => cases hextend
  | full =>
    rw [hawait] at hmeans
    exact .inl ⟨rfl, hmeans.1⟩
  | closed buffer =>
    rw [hawait] at hmeans
    have hlong := (decodeChunked_left hstep rfl).1
    exact absurd hmeans.2.1 (by omega)

theorem Arrives.complete (h : Arrives sent pending reads)
    (hstep : decodeChunked std sent = .ok (.complete rest)) (body : Bytes) :
    (readChunked std body pending reads = .error .responseTooLarge ∧
      MAX_CHUNK_BYTES < chunkNeed std sent) ∨
    (chunkNeed std sent < MAX_CHUNK_BYTES + READ_BYTES ∧
      readChunked std body pending reads = .ok body) := by
  have hmeans := h.means std
  rw [readChunked_eq, h.whole]
  cases hawait : List.await MAX_CHUNK_BYTES (chunkNeed std sent) pending reads with
  | got buffer more =>
    rw [hawait] at hmeans
    obtain ⟨hneed, hshort, hwhole, hpieces⟩ := hmeans
    rw [← hwhole] at hstep hneed
    obtain ⟨step, hdecode, hextend⟩ := decodeChunked_got hstep hneed
    cases step with
    | chunk => cases hextend
    | needMore => cases hextend
    | complete =>
      refine .inr ⟨?_, readChunked_complete hdecode⟩
      rw [← hwhole]
      omega
  | full =>
    rw [hawait] at hmeans
    exact .inl ⟨rfl, hmeans.1⟩
  | closed buffer =>
    rw [hawait] at hmeans
    have hlong := (decodeChunked_left hstep rfl).1
    exact absurd hmeans.2.1 (by omega)

theorem Arrives.failed {e : SnapdError} (h : Arrives sent pending reads)
    (hstep : decodeChunked std sent = .error e) (body : Bytes) :
    (readChunked std body pending reads = .error .responseTooLarge ∧
      MAX_CHUNK_BYTES < chunkNeed std sent) ∨
    (chunkNeed std sent < MAX_CHUNK_BYTES + READ_BYTES ∧
      readChunked std body pending reads = .error e) := by
  have hmeans := h.means std
  rw [readChunked_eq, h.whole]
  cases hawait : List.await MAX_CHUNK_BYTES (chunkNeed std sent) pending reads with
  | got buffer more =>
    rw [hawait] at hmeans
    obtain ⟨hneed, hshort, hwhole, hpieces⟩ := hmeans
    refine .inr ⟨by omega, readChunked_error ?_⟩
    rw [← hwhole] at hstep hneed
    have hlong := (decodeChunked_long hneed).1
    rw [hstep] at hlong
    cases hdecode : decodeChunked std buffer with
    | error e' =>
      rw [hdecode] at hlong
      exact hlong.symm
    | ok step =>
      rw [hdecode] at hlong
      cases hlong
  | full =>
    rw [hawait] at hmeans
    exact .inl ⟨rfl, hmeans.1⟩
  | closed buffer =>
    rw [hawait] at hmeans
    obtain ⟨-, hshort, hroom⟩ := hmeans
    rcases decodeChunked_error hstep with hlong | ⟨-, hlong, -⟩
    · exact absurd hshort (by omega)
    · exact absurd hroom (by omega)

theorem Arrives.cut (h : Arrives sent pending reads)
    (hstep : decodeChunked std sent = .ok .needMore) (body : Bytes) :
    readChunked std body pending reads =
      if MAX_CHUNK_BYTES ≤ sent.length then .error .responseTooLarge
      else .error (closedInChunks sent) := by
  have hmeans := h.means std
  have hshort := decodeChunked_needMore hstep
  rw [readChunked_eq, h.whole]
  cases hawait : List.await MAX_CHUNK_BYTES (chunkNeed std sent) pending reads with
  | got buffer more =>
    rw [hawait] at hmeans
    obtain ⟨hneed, -, hwhole, -⟩ := hmeans
    have hlen := congrArg List.length hwhole
    rw [List.length_append] at hlen
    omega
  | full =>
    rw [hawait] at hmeans
    rw [if_pos hmeans.2]
    rfl
  | closed buffer =>
    rw [hawait] at hmeans
    rw [if_neg (Nat.not_le.mpr hmeans.2.2), hmeans.1]
    rfl

/-! ## All the chunks -/

/-- A chunk, and the bytes it needs with its line and line breaks. -/
structure Chunk where
  framed : ℕ
  data : Bytes

/-- How the chunks end: with the last one, in a step that fails, or cut short. -/
inductive Ending
  | complete (framed : ℕ) (after : Bytes)
  | failed (framed : ℕ) (error : SnapdError)
  | cut (rest : Bytes)

def chunksOf (std : Std) (sent : Bytes) : List Chunk × Ending :=
  match _ : decodeChunked std sent with
  | .error error => ([], .failed (chunkNeed std sent) error)
  | .ok (.complete rest) => ([], .complete (chunkNeed std sent) rest)
  | .ok .needMore => ([], .cut sent)
  | .ok (.chunk data rest) =>
    (⟨chunkNeed std sent, data⟩ :: (chunksOf std rest).1, (chunksOf std rest).2)
termination_by sent.length
decreasing_by all_goals exact length_rest_of_chunk std ‹_›

theorem chunksOf_error {e : SnapdError} (h : decodeChunked std sent = .error e) :
    chunksOf std sent = ([], .failed (chunkNeed std sent) e) := by
  rw [chunksOf.eq_def]
  split <;> simp_all

theorem chunksOf_complete (h : decodeChunked std sent = .ok (.complete rest)) :
    chunksOf std sent = ([], .complete (chunkNeed std sent) rest) := by
  rw [chunksOf.eq_def]
  split <;> simp_all

theorem chunksOf_needMore (h : decodeChunked std sent = .ok .needMore) :
    chunksOf std sent = ([], .cut sent) := by
  rw [chunksOf.eq_def]
  split <;> simp_all

theorem chunksOf_chunk (h : decodeChunked std sent = .ok (.chunk data rest)) :
    chunksOf std sent =
      (⟨chunkNeed std sent, data⟩ :: (chunksOf std rest).1, (chunksOf std rest).2) := by
  rw [chunksOf.eq_def]
  split <;> simp_all

/-- An ending that is over a limit however the reads fall. -/
def Ending.Over : Ending → Prop
  | .complete framed _ => MAX_CHUNK_BYTES + READ_BYTES ≤ framed
  | .failed framed error => error = .responseTooLarge ∨ MAX_CHUNK_BYTES + READ_BYTES ≤ framed
  | .cut rest => MAX_CHUNK_BYTES ≤ rest.length

/-- An ending that is decided within the bound of a chunk. -/
def Ending.Within : Ending → Prop
  | .complete framed _ => framed ≤ MAX_CHUNK_BYTES
  | .failed framed _ => framed ≤ MAX_CHUNK_BYTES
  | .cut _ => True

/-- The bytes of the chunks. -/
def dataOf (chunks : List Chunk) : Bytes := chunks.flatMap Chunk.data

/-- The chunks are over a limit however the reads fall, `length` bytes having been read before. -/
def Over (length : ℕ) (chunks : List Chunk × Ending) : Prop :=
  MAX_RESPONSE_BYTES < length + (dataOf chunks.1).length ∨
    (∃ chunk ∈ chunks.1, MAX_CHUNK_BYTES + READ_BYTES ≤ chunk.framed) ∨ chunks.2.Over

/-- Each chunk, with its line and line breaks, is within the bound of a chunk. -/
def Within (chunks : List Chunk × Ending) : Prop :=
  (∀ chunk ∈ chunks.1, chunk.framed ≤ MAX_CHUNK_BYTES) ∧ chunks.2.Within

/-- **Over a limit, the loop never reads the body.** -/
theorem readChunked_of_over (h : Arrives sent pending reads)
    (hroom : body.length ≤ MAX_RESPONSE_BYTES) (hover : Over body.length (chunksOf std sent)) :
    readChunked std body pending reads = .error .responseTooLarge := by
  induction sent using chunksOf.induct std generalizing body pending reads with
  | case1 sent e hstep =>
    rw [chunksOf_error hstep] at hover
    rcases h.failed hstep body with ⟨hlarge, -⟩ | ⟨hshort, hfailed⟩
    · exact hlarge
    · rcases hover with hlong | ⟨chunk, hchunk, -⟩ | hend | hend
      · exact absurd hlong (by simpa [dataOf] using hroom)
      · cases hchunk
      · rw [hfailed, hend]
      · omega
  | case2 sent rest hstep =>
    rw [chunksOf_complete hstep] at hover
    rcases h.complete hstep body with ⟨hlarge, -⟩ | ⟨hshort, -⟩
    · exact hlarge
    · rcases hover with hlong | ⟨chunk, hchunk, -⟩ | hend
      · exact absurd hlong (by simpa [dataOf] using hroom)
      · cases hchunk
      · exact absurd hend (Nat.not_le.mpr hshort)
  | case3 sent hstep =>
    rw [chunksOf_needMore hstep] at hover
    rw [h.cut hstep]
    rcases hover with hlong | ⟨chunk, hchunk, -⟩ | hend
    · exact absurd hlong (by simpa [dataOf] using hroom)
    · cases hchunk
    · exact if_pos hend
  | case4 sent data rest hstep ih =>
    rw [chunksOf_chunk hstep] at hover
    rcases h.chunk hstep body with ⟨hlarge, -⟩ | ⟨hshort, pending', reads', harrives, hread⟩
    · exact hlarge
    · rw [hread]
      split
      · rfl
      · next hfits =>
        have hlen : (body ++ data).length = body.length + data.length := List.length_append
        refine ih harrives (by omega) ?_
        rcases hover with hlong | ⟨chunk, hchunk, hframed⟩ | hend
        · left
          have hdata : (dataOf (⟨chunkNeed std sent, data⟩ :: (chunksOf std rest).1)).length =
            data.length + (dataOf (chunksOf std rest).1).length := List.length_append
          dsimp only at hlong
          omega
        · rcases List.mem_cons.mp hchunk with rfl | hchunk
          · exact absurd hframed (Nat.not_le.mpr hshort)
          · exact .inr (.inl ⟨chunk, hchunk, hframed⟩)
        · exact .inr (.inr hend)

/-- **With every chunk within the bound, the loop reads what it would of everything at once.** -/
theorem readChunked_of_within (h : Arrives sent pending reads)
    (hwithin : Within (chunksOf std sent)) :
    readChunked std body pending reads = readChunked std body sent [] := by
  induction sent using chunksOf.induct std generalizing body pending reads with
  | case1 sent e hstep =>
    rw [chunksOf_error hstep] at hwithin
    rw [readChunked_error hstep]
    rcases h.failed hstep body with ⟨-, hlong⟩ | ⟨-, hfailed⟩
    · exact absurd hwithin.2 (Nat.not_le.mpr hlong)
    · exact hfailed
  | case2 sent rest hstep =>
    rw [chunksOf_complete hstep] at hwithin
    rw [readChunked_complete hstep]
    rcases h.complete hstep body with ⟨-, hlong⟩ | ⟨-, hread⟩
    · exact absurd hwithin.2 (Nat.not_le.mpr hlong)
    · exact hread
  | case3 sent hstep => rw [h.cut hstep, readChunked_needMore hstep]
  | case4 sent data rest hstep ih =>
    rw [chunksOf_chunk hstep] at hwithin
    obtain ⟨hframed, hend⟩ := hwithin
    rw [List.forall_mem_cons] at hframed
    rw [readChunked_chunk hstep]
    rcases h.chunk hstep body with ⟨-, hlong⟩ | ⟨-, pending', reads', harrives, hread⟩
    · exact absurd hframed.1 (Nat.not_le.mpr hlong)
    · rw [hread, ih harrives ⟨hframed.2, hend⟩]

/-- Read at once, only what is over a limit in any case is refused. -/
theorem readChunked_whole_ne (hover : ¬Over body.length (chunksOf std sent)) :
    readChunked std body sent [] ≠ .error .responseTooLarge := by
  induction sent using chunksOf.induct std generalizing body with
  | case1 sent e hstep =>
    rw [chunksOf_error hstep] at hover
    rw [readChunked_error hstep]
    exact fun h => hover (.inr (.inr (.inl (Except.error.inj h))))
  | case2 sent rest hstep =>
    rw [readChunked_complete hstep]
    simp
  | case3 sent hstep =>
    rw [chunksOf_needMore hstep] at hover
    have hroom : ¬MAX_CHUNK_BYTES ≤ sent.length := fun h => hover (.inr (.inr h))
    rw [readChunked_needMore hstep, if_neg hroom]
    simp [closedInChunks]
  | case4 sent data rest hstep ih =>
    rw [chunksOf_chunk hstep] at hover
    have hdata : (dataOf (⟨chunkNeed std sent, data⟩ :: (chunksOf std rest).1)).length =
      data.length + (dataOf (chunksOf std rest).1).length := List.length_append
    have hlen : (body ++ data).length = body.length + data.length := List.length_append
    rw [readChunked_chunk hstep]
    split
    · next hlong =>
      refine absurd (.inl ?_) hover
      dsimp only
      omega
    · refine ih fun h => hover ?_
      rcases h with hlong | ⟨chunk, hchunk, hframed⟩ | hend
      · left
        dsimp only
        omega
      · exact .inr (.inl ⟨chunk, List.mem_cons_of_mem _ hchunk, hframed⟩)
      · exact .inr (.inr hend)

theorem ones_take_drop (n : ℕ) (sent : Bytes) :
    List.ones sent = List.ones (sent.take n) ++ List.ones (sent.drop n) := by
  rw [List.ones, List.ones, List.ones, ← List.map_append, List.take_append_drop]

theorem flatten_ones (sent : Bytes) : (List.ones sent).flatten = sent :=
  (List.splits_ones le_rfl sent).flatten

/-- Byte by byte, what needs more than the bound is refused. -/
theorem readChunked_ones_full (hneed : MAX_CHUNK_BYTES < chunkNeed std sent)
    (hlong : MAX_CHUNK_BYTES ≤ sent.length) :
    readChunked std body [] (List.ones sent) = .error .responseTooLarge := by
  have hones : List.await MAX_CHUNK_BYTES (chunkNeed std sent) [] (List.ones sent ++ []) = .full :=
    List.await_ones hneed hlong
  rw [List.append_nil] at hones
  rw [readChunked_eq, List.nil_append, flatten_ones, hones, chunkOutcome]

/-- **A chunk beyond the bound is refused when it arrives byte by byte.** -/
theorem readChunked_ones (hwithin : ¬Within (chunksOf std sent)) :
    readChunked std body [] (List.ones sent) = .error .responseTooLarge := by
  induction sent using chunksOf.induct std generalizing body with
  | case1 sent e hstep =>
    rw [chunksOf_error hstep] at hwithin
    have hneed : MAX_CHUNK_BYTES < chunkNeed std sent :=
      Nat.not_le.mp fun h => hwithin ⟨by simp, h⟩
    refine readChunked_ones_full hneed ?_
    rcases decodeChunked_error hstep with hlong | ⟨-, hlong, -⟩ <;> omega
  | case2 sent rest hstep =>
    rw [chunksOf_complete hstep] at hwithin
    have hneed : MAX_CHUNK_BYTES < chunkNeed std sent :=
      Nat.not_le.mp fun h => hwithin ⟨by simp, h⟩
    have hlong := (decodeChunked_left hstep rfl).1
    exact readChunked_ones_full hneed (by omega)
  | case3 sent hstep =>
    rw [chunksOf_needMore hstep] at hwithin
    exact absurd ⟨by simp, trivial⟩ hwithin
  | case4 sent data rest hstep ih =>
    rw [chunksOf_chunk hstep] at hwithin
    obtain ⟨hlong, hrest⟩ := decodeChunked_left hstep rfl
    rcases Nat.lt_or_ge MAX_CHUNK_BYTES (chunkNeed std sent) with hneed | hneed
    · exact readChunked_ones_full hneed (by omega)
    · -- this chunk is read to its last byte, and the next begins with nothing pending
      have hgot : List.await MAX_CHUNK_BYTES (chunkNeed std sent) []
          (List.ones (sent.take (chunkNeed std sent)) ++ List.ones rest) =
            .got (sent.take (chunkNeed std sent)) (List.ones rest) :=
        List.await_ones_take hneed hlong
      rw [readChunked_eq, List.nil_append, flatten_ones, ones_take_drop (chunkNeed std sent),
        ← hrest, hgot, chunkOutcome, readChunked_chunk (decodeChunked_take_chunk hstep)]
      split
      · rfl
      · refine ih fun h => hwithin ⟨?_, h.2⟩
        rw [List.forall_mem_cons]
        exact ⟨hneed, h.1⟩

/-- In one piece beyond the bound, what is needed is found, and what follows it left. -/
theorem readChunked_jump (hlong : chunkNeed std sent ≤ sent.length)
    (hreads : List.Splits READ_BYTES reads (sent.drop (chunkNeed std sent))) :
    readChunked std body [] (List.jump MAX_CHUNK_BYTES (chunkNeed std sent) sent ++ reads) =
      readChunked std body (sent.take (chunkNeed std sent)) reads := by
  have hlimit : 0 < MAX_CHUNK_BYTES := by decide
  have hflat : (List.jump MAX_CHUNK_BYTES (chunkNeed std sent) sent ++ reads).flatten = sent := by
    rw [List.flatten_append, hreads.flatten, List.flatten_jump, List.take_append_drop]
  rw [readChunked_eq, List.nil_append, hflat,
    List.await_jump (chunkNeed_pos sent) hlimit hlong, chunkOutcome]

/-- Reads up to the end of a chunk that one can reach, and those after it. -/
theorem splits_jump (hlong : chunkNeed std sent ≤ sent.length)
    (hshort : chunkNeed std sent < MAX_CHUNK_BYTES + READ_BYTES)
    (hreads : List.Splits READ_BYTES reads (sent.drop (chunkNeed std sent))) :
    List.Splits READ_BYTES
      (List.jump MAX_CHUNK_BYTES (chunkNeed std sent) sent ++ reads) sent := by
  have hsplit := (List.splits_jump (by decide) (chunkNeed_pos sent) (by decide) hlong
    hshort).append hreads
  rwa [List.take_append_drop] at hsplit

/-- **What no read has to miss is read, when the reads fall on the chunks.** -/
theorem exists_readChunked_whole (hover : ¬Over body.length (chunksOf std sent)) :
    ∃ reads, List.Splits READ_BYTES reads sent ∧
      readChunked std body [] reads = readChunked std body sent [] := by
  have hwidth : 1 ≤ READ_BYTES := by decide
  induction sent using chunksOf.induct std generalizing body with
  | case1 sent e hstep =>
    rw [chunksOf_error hstep] at hover
    rcases decodeChunked_error hstep with hlong | ⟨hlarge, -⟩
    · have hshort : chunkNeed std sent < MAX_CHUNK_BYTES + READ_BYTES :=
        Nat.not_le.mp fun h => hover (.inr (.inr (.inr h)))
      have hreads := List.splits_ones hwidth (sent.drop (chunkNeed std sent))
      refine ⟨_, splits_jump hlong hshort hreads, ?_⟩
      have htake := decodeChunked_take hlong
      rw [hstep] at htake
      rw [readChunked_jump hlong hreads, readChunked_error hstep]
      refine readChunked_error ?_
      cases hdecode : decodeChunked std (sent.take (chunkNeed std sent)) with
      | error e' =>
        rw [hdecode] at htake
        exact htake.symm
      | ok step =>
        rw [hdecode] at htake
        cases htake
    · exact absurd (.inr (.inr (.inl hlarge))) hover
  | case2 sent rest hstep =>
    rw [chunksOf_complete hstep] at hover
    obtain ⟨hlong, hrest⟩ := decodeChunked_left hstep rfl
    have hshort : chunkNeed std sent < MAX_CHUNK_BYTES + READ_BYTES :=
      Nat.not_le.mp fun h => hover (.inr (.inr h))
    have hreads := List.splits_ones hwidth (sent.drop (chunkNeed std sent))
    refine ⟨_, splits_jump hlong hshort hreads, ?_⟩
    have htake := decodeChunked_take hlong
    rw [hstep] at htake
    rw [readChunked_jump hlong hreads, readChunked_complete hstep]
    cases hdecode : decodeChunked std (sent.take (chunkNeed std sent)) with
    | error e' =>
      rw [hdecode] at htake
      cases htake
    | ok step =>
      rw [hdecode] at htake
      cases step with
      | complete rest' => exact readChunked_complete hdecode
      | chunk => cases htake
      | needMore => cases htake
  | case3 sent hstep =>
    have hones : Arrives sent [] (List.ones sent) :=
      ⟨by decide, flatten_ones sent, (List.splits_ones hwidth sent).pieces⟩
    refine ⟨List.ones sent, List.splits_ones hwidth sent, ?_⟩
    rw [hones.cut hstep, readChunked_needMore hstep]
  | case4 sent data rest hstep ih =>
    rw [chunksOf_chunk hstep] at hover
    obtain ⟨hlong, hrest⟩ := decodeChunked_left hstep rfl
    have hshort : chunkNeed std sent < MAX_CHUNK_BYTES + READ_BYTES :=
      Nat.not_le.mp fun h => hover (.inr (.inl ⟨_, List.mem_cons_self, h⟩))
    have hdata : (dataOf (⟨chunkNeed std sent, data⟩ :: (chunksOf std rest).1)).length =
      data.length + (dataOf (chunksOf std rest).1).length := List.length_append
    have hlen : (body ++ data).length = body.length + data.length := List.length_append
    have hover' : ¬Over (body ++ data).length (chunksOf std rest) := by
      rintro (hlarge | ⟨chunk, hchunk, hframed⟩ | hend)
      · refine hover (.inl ?_)
        dsimp only
        omega
      · exact hover (.inr (.inl ⟨chunk, List.mem_cons_of_mem _ hchunk, hframed⟩))
      · exact hover (.inr (.inr hend))
    obtain ⟨reads, hreads, hread⟩ := ih hover'
    rw [hrest] at hreads
    refine ⟨_, splits_jump hlong hshort hreads, ?_⟩
    rw [readChunked_jump hlong hreads, readChunked_chunk (decodeChunked_take_chunk hstep),
      readChunked_chunk hstep, hread]

end Snapd

end Config

end Myna

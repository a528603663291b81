import Myna.Config.SnapdWellFormed

/-!
# Myna — a response does not depend on how it arrives, if it stays clear of the limits

`ReadsAlike` is what a reader of snapd expects: any two splits of what is sent give the same result,
a well-formed response gives its body, and no result holds more than the limit. The limits are
compared with what is buffered, so where a read ends decides near one of them: `Steady` says what
stays clear.

* **`settled_body`**, **`unsettled_body`** — the body, after a header block;
* **`settled_response`**, **`unsettled_head`** — the whole response;
* **`readsAlike_iff`** — `Steady` is exactly the condition.
-/

namespace Myna

namespace Config

namespace Snapd

variable {std : Std} {body rest sent : Bytes} {headers : Headers}

/-! ## What stays clear of the limits -/

/-- The header block ends within its limit, or where no read that begins within it reaches. -/
def HeadSteady (sent : Bytes) : Prop :=
  ∀ headerEnd, findDoubleCrlf sent = some headerEnd →
    headerEnd + 4 ≤ MAX_HEADER_BYTES ∨ MAX_HEADER_BYTES + READ_BYTES ≤ headerEnd + 4

/-- A body with a length is further from the limit than a read reaches, or beyond it, or not enough
is sent. Chunks are within their limit with their line and line breaks, or over one in any case. -/
def BodySteady (std : Std) (headers : Headers) (rest : Bytes) : Prop :=
  match headers.contentLength with
  | some len =>
    MAX_RESPONSE_BYTES < len ∨ len + READ_BYTES ≤ MAX_RESPONSE_BYTES + 1 ∨
      rest.length ≤ MAX_RESPONSE_BYTES
  | none => headers.chunked = true → Over 0 (chunksOf std rest) ∨ Within (chunksOf std rest)

/-- Where the header block ends within its limit, the headers and what is sent after them. -/
def Heads (std : Std) (sent : Bytes) (headers : Headers) (rest : Bytes) : Prop :=
  ∃ headerEnd, findDoubleCrlf sent = some headerEnd ∧ headerEnd + 4 ≤ MAX_HEADER_BYTES ∧
    headersOf std (sent.take headerEnd) = .ok headers ∧ rest = sent.drop (headerEnd + 4)

/-- What is sent stays clear of the limits. -/
structure Steady (std : Std) (sent : Bytes) : Prop where
  head : HeadSteady sent
  body : ∀ headers rest, Heads std sent headers rest → BodySteady std headers rest
  /-- The chunks of a well-formed response are not over a limit by their lines. -/
  framed : ∀ body, WellFormed std sent body → ∀ headers rest, Heads std sent headers rest →
    headers.contentLength = none → headers.chunked = true → Within (chunksOf std rest)

/-! ## After the header block -/

/-- What arrives after the header block. -/
structure Follows (rest buffer : Bytes) (reads : List Bytes) : Prop where
  short : buffer.length < MAX_HEADER_BYTES + READ_BYTES
  whole : buffer ++ reads.flatten = rest
  pieces : ∀ bytes ∈ reads, bytes ≠ [] ∧ bytes.length ≤ READ_BYTES

theorem follows_of_splits {reads : List Bytes} (h : List.Splits READ_BYTES reads rest) :
    Follows rest [] reads :=
  ⟨by decide, h.flatten, h.pieces⟩

theorem Follows.arrives {buffer : Bytes} {reads : List Bytes} (h : Follows rest buffer reads) :
    Arrives rest buffer reads := by
  refine ⟨h.short.trans ?_, h.whole, h.pieces⟩
  decide

theorem Follows.room {buffer : Bytes} {reads : List Bytes} (h : Follows rest buffer reads) :
    buffer.length ≤ MAX_RESPONSE_BYTES := by
  refine h.short.le.trans ?_
  decide

/-- **Clear of the limits, the body does not depend on how it arrives.** -/
theorem settled_body (hsteady : BodySteady std headers rest) :
    ∃ result, ∀ buffer reads, Follows rest buffer reads →
      readBody std headers buffer reads = result := by
  unfold BodySteady at hsteady
  cases hlength : headers.contentLength with
  | some len =>
    simp only [hlength] at hsteady
    rcases Nat.lt_or_ge MAX_RESPONSE_BYTES len with hlarge | hlen
    · refine ⟨.error .responseTooLarge, fun buffer reads _ => ?_⟩
      simp only [readBody, hlength, if_pos hlarge]
    · have hbody : ∀ buffer reads, readBody std headers buffer reads =
          readLength len buffer reads := by
        intro buffer reads
        simp only [readBody, hlength, if_neg (Nat.not_lt.mpr hlen)]
      rcases Nat.lt_or_ge rest.length len with hshort | hlong
      · refine ⟨.error (closedInLength rest), fun buffer reads h => ?_⟩
        rw [hbody, readLength_short hlen (by rw [h.whole]; exact hshort), h.whole]
      · refine ⟨.ok (rest.take len), fun buffer reads h => ?_⟩
        rw [hbody, readLength_of_fits (fun bytes hbytes => (h.pieces bytes hbytes).2)
          (by rw [h.whole]; exact hlong) (by rw [h.whole]; omega), h.whole]
  | none =>
    simp only [hlength] at hsteady
    cases hchunked : headers.chunked with
    | true =>
      have hbody : ∀ buffer reads, readBody std headers buffer reads =
          readChunked std [] buffer reads := by
        intro buffer reads
        simp only [readBody, hlength, hchunked, if_true]
      rcases hsteady hchunked with hover | hwithin
      · have hempty : Over (List.length ([] : Bytes)) (chunksOf std rest) := hover
        refine ⟨.error .responseTooLarge, fun buffer reads h => ?_⟩
        rw [hbody, readChunked_of_over h.arrives (Nat.zero_le _) hempty]
      · refine ⟨readChunked std [] rest [], fun buffer reads h => ?_⟩
        rw [hbody, readChunked_of_within h.arrives hwithin]
    | false =>
      refine ⟨if MAX_RESPONSE_BYTES < rest.length then .error .responseTooLarge else .ok rest,
        fun buffer reads h => ?_⟩
      simp only [readBody, hlength, hchunked, Bool.false_eq_true, if_false]
      rw [readToClose_eq h.room, h.whole]

/-- **Otherwise one split is refused, and another is not.** -/
theorem unsettled_body (hsteady : ¬BodySteady std headers rest) :
    ∃ reads reads', List.Splits READ_BYTES reads rest ∧ List.Splits READ_BYTES reads' rest ∧
      readBody std headers [] reads = .error .responseTooLarge ∧
      readBody std headers [] reads' ≠ .error .responseTooLarge := by
  have hwidth : 1 ≤ READ_BYTES := by decide
  unfold BodySteady at hsteady
  cases hlength : headers.contentLength with
  | some len =>
    simp only [hlength, not_or, Nat.not_lt, Nat.not_le] at hsteady
    obtain ⟨hlen, hnear, hlong⟩ := hsteady
    have hread : READ_BYTES = 8192 := rfl
    have hmax : MAX_RESPONSE_BYTES = 1048576 := rfl
    have hbody : ∀ reads, readBody std headers [] reads = readLength len [] reads := by
      intro reads
      simp only [readBody, hlength, if_neg (Nat.not_lt.mpr hlen)]
    have hjump : List.Splits READ_BYTES (List.jump len (MAX_RESPONSE_BYTES + 1) rest ++
        List.ones (rest.drop (MAX_RESPONSE_BYTES + 1))) rest := by
      have hsplit := (List.splits_jump (l := rest) hwidth (Nat.succ_pos MAX_RESPONSE_BYTES)
        (by omega : 0 < len) hlong (by omega)).append
          (List.splits_ones hwidth (rest.drop (MAX_RESPONSE_BYTES + 1)))
      rwa [List.take_append_drop] at hsplit
    refine ⟨_, List.ones rest, hjump, List.splits_ones hwidth rest, ?_, ?_⟩
    · rw [hbody, readLength_jump (by omega) hlen hlong]
    · rw [hbody, readLength_ones hlen (by omega)]
      simp
  | none =>
    simp only [hlength, Classical.not_imp, not_or] at hsteady
    obtain ⟨hchunked, hover, hwithin⟩ := hsteady
    have hbody : ∀ reads, readBody std headers [] reads = readChunked std [] [] reads := by
      intro reads
      simp only [readBody, hlength, hchunked, if_true]
    have hempty : ¬Over (List.length ([] : Bytes)) (chunksOf std rest) := hover
    obtain ⟨reads, hsplit, hread⟩ := exists_readChunked_whole hempty
    refine ⟨List.ones rest, reads, List.splits_ones hwidth rest, hsplit, ?_, ?_⟩
    · rw [hbody, readChunked_ones hwithin]
    · rw [hbody, hread]
      exact readChunked_whole_ne hempty

/-! ## The whole response -/

/-- What is made of the header block and of what arrives after it. -/
def afterHead (std : Std) (block buffer : Bytes) (reads : List Bytes) :
    Except SnapdError Bytes := do
  let headers ← headersOf std block
  let body ← readBody std headers buffer reads
  acceptBody std headers body

theorem readResponse_eq {reads : List Bytes} (h : reads.flatten = sent) :
    readResponse std reads =
      match headOutcome sent (List.await MAX_HEADER_BYTES (headNeed sent) [] reads) with
      | .error e => .error e
      | .ok (headerEnd, buffer, more) =>
        afterHead std (buffer.take headerEnd) (buffer.drop (headerEnd + 4)) more := by
  rw [readResponse, readHead_eq, List.nil_append, h]
  cases headOutcome sent (List.await MAX_HEADER_BYTES (headNeed sent) [] reads) <;> rfl

theorem headNeed_le {headerEnd : ℕ} (hfind : findDoubleCrlf sent = some headerEnd) :
    headNeed sent = headerEnd + 4 ∧ headerEnd + 4 ≤ sent.length := by
  have hlong : headerEnd + 4 ≤ sent.length := List.position_le hfind
  exact ⟨by simp only [headNeed, hfind], hlong⟩

variable (std) in
/-- A header block within its limit is found, and what arrives after it is what is sent after it. -/
theorem readResponse_of_head {reads : List Bytes} {headerEnd : ℕ}
    (hreads : List.Splits READ_BYTES reads sent) (hfind : findDoubleCrlf sent = some headerEnd)
    (hhead : headerEnd + 4 ≤ MAX_HEADER_BYTES) :
    ∃ buffer more, Follows (sent.drop (headerEnd + 4)) buffer more ∧
      readResponse std reads = afterHead std (sent.take headerEnd) buffer more := by
  obtain ⟨hneed, hlong⟩ := headNeed_le hfind
  have hflat : ([] : Bytes) ++ reads.flatten = sent := hreads.flatten
  have hempty : ([] : Bytes).length < MAX_HEADER_BYTES + READ_BYTES := by decide
  obtain ⟨buffer, more, hawait, hgot, hshort, hwhole, hpieces⟩ :=
    List.await_of_le hempty hreads.pieces (hneed ▸ hhead) (by rw [hflat, hneed]; exact hlong)
  rw [hflat] at hwhole
  rw [hneed] at hgot
  have htake : sent.take headerEnd = buffer.take headerEnd := by
    rw [← hwhole, List.take_append_of_le_length (by omega)]
  have hdrop : sent.drop (headerEnd + 4) = buffer.drop (headerEnd + 4) ++ more.flatten := by
    rw [← hwhole, List.drop_append_of_le_length hgot]
  refine ⟨buffer.drop (headerEnd + 4), more, ⟨?_, hdrop.symm, hpieces⟩, ?_⟩
  · rw [List.length_drop]
    omega
  · rw [readResponse_eq hreads.flatten, hawait, htake]
    simp only [headOutcome, hfind, Option.getD_some]

/-- Reads that end with the header block. -/
theorem readResponse_ones {reads : List Bytes} {headerEnd : ℕ}
    (hreads : List.Splits READ_BYTES reads (sent.drop (headerEnd + 4)))
    (hfind : findDoubleCrlf sent = some headerEnd) (hhead : headerEnd + 4 ≤ MAX_HEADER_BYTES) :
    List.Splits READ_BYTES (List.ones (sent.take (headerEnd + 4)) ++ reads) sent ∧
      readResponse std (List.ones (sent.take (headerEnd + 4)) ++ reads) =
        afterHead std (sent.take headerEnd) [] reads := by
  obtain ⟨hneed, hlong⟩ := headNeed_le hfind
  have hsplit : List.Splits READ_BYTES (List.ones (sent.take (headerEnd + 4)) ++ reads) sent := by
    have happ := (List.splits_ones (by decide : 1 ≤ READ_BYTES)
      (sent.take (headerEnd + 4))).append hreads
    rwa [List.take_append_drop] at happ
  refine ⟨hsplit, ?_⟩
  have hlen : (sent.take (headerEnd + 4)).length = headerEnd + 4 := List.length_take_of_le hlong
  rw [readResponse_eq hsplit.flatten, hneed, List.await_ones_take hhead hlong]
  simp only [headOutcome, hfind, Option.getD_some]
  rw [List.take_take, Nat.min_eq_left (by omega), List.drop_of_length_le (by omega)]

theorem sound_afterHead (block : Bytes) {buffer : Bytes} {reads : List Bytes}
    (hbuffer : buffer.length ≤ MAX_RESPONSE_BYTES) : Sound (afterHead std block buffer reads) := by
  unfold afterHead
  cases hheaders : headersOf std block with
  | error e => exact late_headersOf hheaders
  | ok headers =>
    have hsound : Sound (readBody std headers buffer reads) := sound_readBody hbuffer
    simp only [bind, Except.bind]
    cases hbody : readBody std headers buffer reads with
    | error e =>
      rw [hbody] at hsound
      exact hsound
    | ok body =>
      rw [hbody] at hsound
      exact sound_acceptBody hsound

/-- The bytes of body, or of what was read in its place, that a result holds. -/
def held : Except SnapdError Bytes → ℕ
  | .ok body => body.length
  | .error (.protocol _ (.lossy bytes)) => bytes.length
  | .error _ => 0

theorem Sound.held_le {result : Except SnapdError Bytes} (h : Sound result) :
    held result ≤ MAX_RESPONSE_BYTES := by
  cases result with
  | ok body => exact h
  | error e =>
    cases h with
    | responseTooLarge => exact Nat.zero_le _
    | text => exact Nat.zero_le _
    | lossy hroom => exact hroom
    | snapd => exact Nat.zero_le _

/-- **No result holds more than the limit.** -/
theorem held_readResponse {reads : List Bytes} (h : List.Splits READ_BYTES reads sent) :
    held (readResponse std reads) ≤ MAX_RESPONSE_BYTES := by
  have hempty : ([] : Bytes).length < MAX_HEADER_BYTES + READ_BYTES := by decide
  have hmeans : (List.await MAX_HEADER_BYTES (headNeed sent) [] reads).Means READ_BYTES
      MAX_HEADER_BYTES (headNeed sent) ([] ++ reads.flatten) := List.await_means _ hempty h.pieces
  have hmax : MAX_HEADER_BYTES + READ_BYTES ≤ MAX_RESPONSE_BYTES := by decide
  rw [readResponse_eq h.flatten]
  cases hawait : List.await MAX_HEADER_BYTES (headNeed sent) [] reads with
  | got buffer more =>
    rw [hawait] at hmeans
    refine (sound_afterHead _ ?_).held_le
    have hshort := hmeans.2.1
    rw [List.length_drop]
    omega
  | full => exact Nat.zero_le _
  | closed buffer =>
    rw [hawait] at hmeans
    obtain ⟨rfl, -, hshort⟩ := hmeans
    show ([] ++ reads.flatten).length ≤ _
    omega

/-- What is expected of reading a response that arrives in any pieces. -/
structure ReadsAlike (std : Std) (sent : Bytes) : Prop where
  alike : ∀ reads reads', List.Splits READ_BYTES reads sent → List.Splits READ_BYTES reads' sent →
    readResponse std reads = readResponse std reads'
  decodes : ∀ body, WellFormed std sent body → ∀ reads, List.Splits READ_BYTES reads sent →
    readResponse std reads = .ok body
  bounded : ∀ reads, List.Splits READ_BYTES reads sent →
    held (readResponse std reads) ≤ MAX_RESPONSE_BYTES

theorem settled_response (hsteady : Steady std sent) :
    ∃ result, ∀ reads, List.Splits READ_BYTES reads sent → readResponse std reads = result := by
  have hempty : ([] : Bytes).length < MAX_HEADER_BYTES + READ_BYTES := by decide
  have hflat : ∀ {reads}, List.Splits READ_BYTES reads sent →
      ([] : Bytes) ++ reads.flatten = sent := fun h => h.flatten
  -- a header block that is not there, or out of reach, is waited for up to the limit
  have hexceeded : MAX_HEADER_BYTES ≤ sent.length →
      sent.length < headNeed sent ∨ MAX_HEADER_BYTES + READ_BYTES ≤ headNeed sent →
      ∀ reads, List.Splits READ_BYTES reads sent →
        readResponse std reads = .error headersExceeded := by
    intro hfull hneed reads hreads
    have hawait : List.await MAX_HEADER_BYTES (headNeed sent) [] reads = .full :=
      List.await_beyond hempty hreads.pieces (by rw [hflat hreads]; exact hfull)
        (by rw [hflat hreads]; exact hneed)
    rw [readResponse_eq hreads.flatten, hawait]
    rfl
  cases hfind : findDoubleCrlf sent with
  | none =>
    have hneed : headNeed sent = sent.length + 1 := by simp only [headNeed, hfind]
    rcases Nat.lt_or_ge sent.length MAX_HEADER_BYTES with hroom | hfull
    · refine ⟨.error (closedInHeaders sent), fun reads hreads => ?_⟩
      have hawait : List.await MAX_HEADER_BYTES (headNeed sent) [] reads =
          .closed ([] ++ reads.flatten) :=
        List.await_short hempty hreads.pieces (by rw [hflat hreads]; omega)
          (by rw [hflat hreads]; exact hroom)
      rw [readResponse_eq hreads.flatten, hawait, hflat hreads]
      rfl
    · exact ⟨_, hexceeded hfull (.inl (by omega))⟩
  | some headerEnd =>
    obtain ⟨hneed, hlong⟩ := headNeed_le hfind
    rcases hsteady.head headerEnd hfind with hhead | hfar
    · cases hheaders : headersOf std (sent.take headerEnd) with
      | error e =>
        refine ⟨.error e, fun reads hreads => ?_⟩
        obtain ⟨buffer, more, -, hresponse⟩ := readResponse_of_head std hreads hfind hhead
        rw [hresponse, afterHead, hheaders]
        rfl
      | ok headers =>
        obtain ⟨result, hresult⟩ :=
          settled_body (hsteady.body headers _ ⟨headerEnd, hfind, hhead, hheaders, rfl⟩)
        refine ⟨result >>= acceptBody std headers, fun reads hreads => ?_⟩
        obtain ⟨buffer, more, hfollows, hresponse⟩ :=
          readResponse_of_head std hreads hfind hhead
        rw [hresponse, afterHead, hheaders, ← hresult buffer more hfollows]
        rfl
    · exact ⟨_, hexceeded (by omega) (.inr (by omega))⟩

/-- A well-formed response is decoded, if its chunks are not over a limit by their lines. -/
theorem decodes_response {reads : List Bytes} (hsteady : Steady std sent)
    (hwell : WellFormed std sent body) (hreads : List.Splits READ_BYTES reads sent) :
    readResponse std reads = .ok body := by
  have hframed := hsteady.framed body hwell
  obtain @⟨block, payload, body, headers, hblock, hshort, hheaders, hcarries, hroom, text, htext,
    hstatus⟩ := hwell
  have htake : (block ++ (CRLF ++ CRLF ++ payload)).take block.length = block := List.take_left
  have hdrop : (block ++ (CRLF ++ CRLF ++ payload)).drop (block.length + 4) = payload := by
    rw [← List.drop_drop, List.drop_left]
    rfl
  obtain ⟨buffer, more, hfollows, hresponse⟩ := readResponse_of_head std hreads hblock hshort
  rw [hdrop] at hfollows
  have haccept : acceptBody std headers body = .ok body := by
    simp only [acceptBody, htext]
    rcases hstatus with hsuccess | henvelope
    · rw [if_pos hsuccess]
    · rw [if_pos henvelope]
      exact ite_self _
  have hbody : readBody std headers buffer more = .ok body := by
    cases hlength : headers.contentLength with
    | some len =>
      simp only [Carries, hlength] at hcarries
      obtain ⟨rfl, rfl⟩ := hcarries
      simp only [readBody, hlength, if_neg (Nat.not_lt.mpr hroom)]
      rw [readLength_of_fits (fun bytes hbytes => (hfollows.pieces bytes hbytes).2)
        (by rw [hfollows.whole]) (.inl (by rw [hfollows.whole]; exact hroom)), hfollows.whole,
        List.take_length]
    | none =>
      cases hchunked : headers.chunked with
      | true =>
        simp only [Carries, hlength, hchunked, if_true] at hcarries
        have hwithin := hframed headers payload
          ⟨block.length, hblock, hshort, by rw [htake]; exact hheaders, hdrop.symm⟩ hlength hchunked
        simp only [readBody, hlength, hchunked, if_true]
        rw [readChunked_of_within hfollows.arrives hwithin,
          readChunked_chunked hcarries (by simpa using hroom), List.nil_append]
      | false =>
        simp only [Carries, hlength, hchunked, Bool.false_eq_true, if_false] at hcarries
        simp only [readBody, hlength, hchunked, Bool.false_eq_true, if_false]
        rw [readToClose_eq hfollows.room, hfollows.whole, hcarries, if_neg (Nat.not_lt.mpr hroom)]
  rw [hresponse, htake, afterHead, hheaders]
  simp only [bind, Except.bind, hbody, haccept]

/-! ## Near the limits -/

variable (std) in
/-- A header block just beyond its limit is missed byte by byte, and found by one long read. -/
theorem unsettled_head {headerEnd : ℕ} (hfind : findDoubleCrlf sent = some headerEnd)
    (hlimit : MAX_HEADER_BYTES < headerEnd + 4)
    (hreach : headerEnd + 4 < MAX_HEADER_BYTES + READ_BYTES) :
    ∃ reads reads', List.Splits READ_BYTES reads sent ∧ List.Splits READ_BYTES reads' sent ∧
      readResponse std reads = .error headersExceeded ∧
      readResponse std reads' ≠ .error headersExceeded := by
  have hwidth : 1 ≤ READ_BYTES := by decide
  have hpos : 0 < MAX_HEADER_BYTES := by decide
  have hmax : MAX_HEADER_BYTES + READ_BYTES ≤ MAX_RESPONSE_BYTES := by decide
  obtain ⟨hneed, hlong⟩ := headNeed_le hfind
  have hones : List.await MAX_HEADER_BYTES (headerEnd + 4) [] (List.ones sent ++ []) = .full :=
    List.await_ones hlimit (by omega)
  have hrest := List.splits_ones hwidth (sent.drop (headerEnd + 4))
  have hsplit := (List.splits_jump hwidth (Nat.succ_pos _) hpos hlong hreach).append hrest
  rw [List.take_append_drop] at hsplit
  refine ⟨List.ones sent, _, List.splits_ones hwidth sent, hsplit, ?_, ?_⟩
  · rw [List.append_nil] at hones
    rw [readResponse_eq (flatten_ones sent), hneed, hones]
    rfl
  · rw [readResponse_eq hsplit.flatten, hneed, List.await_jump (Nat.succ_pos _) hpos hlong]
    simp only [headOutcome, hfind, Option.getD_some]
    -- nothing that is returned after the header block is this error
    have hsound : Sound (afterHead std ((sent.take (headerEnd + 4)).take headerEnd)
        ((sent.take (headerEnd + 4)).drop (headerEnd + 4))
        (List.ones (sent.drop (headerEnd + 4)))) := by
      refine sound_afterHead _ ?_
      rw [List.length_drop, List.length_take]
      omega
    intro heq
    rw [heq] at hsound
    exact hsound.ne_headersExceeded rfl

theorem afterHead_ne {block buffer : Bytes} {reads : List Bytes}
    (hheaders : headersOf std block = .ok headers)
    (hbody : readBody std headers buffer reads ≠ .error .responseTooLarge) :
    afterHead std block buffer reads ≠ .error .responseTooLarge := by
  rw [afterHead, hheaders]
  simp only [bind, Except.bind]
  cases hread : readBody std headers buffer reads with
  | error e =>
    rw [hread] at hbody
    exact hbody
  | ok body =>
    dsimp only
    unfold acceptBody
    split
    · simp [protocolText]
    · split
      · simp
      · split <;> simp

variable (std) in
/-- A split of the body makes a split of the response. -/
theorem exists_afterHead {reads : List Bytes} {headerEnd : ℕ}
    (hfind : findDoubleCrlf sent = some headerEnd) (hhead : headerEnd + 4 ≤ MAX_HEADER_BYTES)
    (hreads : List.Splits READ_BYTES reads (sent.drop (headerEnd + 4))) :
    ∃ whole, List.Splits READ_BYTES whole sent ∧
      readResponse std whole = afterHead std (sent.take headerEnd) [] reads :=
  ⟨_, readResponse_ones hreads hfind hhead⟩

/-- **Reading does not depend on how a response arrives, exactly if it stays clear of the limits.**
A header block that a read reaches beyond its limit, a body with a length within a read of the limit
and more sent after it, and a chunk that is beyond the limit only by its line and line breaks, are
refused or read as the reads fall. -/
theorem readsAlike_iff (std : Std) (sent : Bytes) : ReadsAlike std sent ↔ Steady std sent := by
  constructor
  · intro h
    refine ⟨?_, ?_, ?_⟩
    · intro headerEnd hfind
      by_contra hnear
      rw [not_or, Nat.not_le, Nat.not_le] at hnear
      obtain ⟨reads, reads', hreads, hreads', hmissed, hfound⟩ :=
        unsettled_head std hfind hnear.1 hnear.2
      exact hfound (h.alike reads reads' hreads hreads' ▸ hmissed)
    · rintro headers rest ⟨headerEnd, hfind, hhead, hheaders, rfl⟩
      by_contra hnear
      obtain ⟨reads, reads', hreads, hreads', hrefused, hread⟩ := unsettled_body hnear
      obtain ⟨whole, hwhole, hresponse⟩ := exists_afterHead std hfind hhead hreads
      obtain ⟨whole', hwhole', hresponse'⟩ := exists_afterHead std hfind hhead hreads'
      refine afterHead_ne hheaders hread ?_
      rw [← hresponse', ← h.alike whole whole' hwhole hwhole', hresponse, afterHead, hheaders]
      simp only [bind, Except.bind, hrefused]
    · rintro body hwell headers rest ⟨headerEnd, hfind, hhead, hheaders, rfl⟩ hlength hchunked
      by_contra hwithin
      have hones := List.splits_ones (by decide : 1 ≤ READ_BYTES) (sent.drop (headerEnd + 4))
      obtain ⟨whole, hwhole, hresponse⟩ := exists_afterHead std hfind hhead hones
      have hdecoded := h.decodes body hwell whole hwhole
      have hrefused : readBody std headers [] (List.ones (sent.drop (headerEnd + 4))) =
          .error .responseTooLarge := by
        simp only [readBody, hlength, hchunked, if_true]
        exact readChunked_ones hwithin
      rw [hresponse, afterHead, hheaders] at hdecoded
      simp only [bind, Except.bind, hrefused] at hdecoded
      cases hdecoded
  · intro h
    obtain ⟨result, hresult⟩ := settled_response h
    refine ⟨fun reads reads' hreads hreads' => ?_, fun body hwell reads hreads => ?_,
      fun reads hreads => held_readResponse hreads⟩
    · rw [hresult reads hreads, hresult reads' hreads']
    · exact decodes_response h hwell hreads

/-- ASCII, and envelopes of no type. -/
def ascii : Std where
  fromUtf8 bytes := .ok (bytes.map fun b => Char.ofNat b.toNat)
  debug text := '"' :: text ++ ['"']
  envelopeType _ := none

/-- A status line with a reason of many characters, so that the header block ends `n` bytes after
it. -/
def longReason (n : ℕ) : Bytes :=
  [72, 84, 84, 80, 47, 49, 46, 49, 32, 50, 48, 48, 32] ++ List.replicate n 97 ++
    (CRLF ++ CRLF ++ [123, 125])

theorem findDoubleCrlf_longReason (n : ℕ) : findDoubleCrlf (longReason n) = some (13 + n) := by
  have hfront : (13 : UInt8) ∉ [72, 84, 84, 80, 47, 49, 46, 49, 32, 50, 48, 48, 32] ++
      List.replicate n 97 := by
    rw [List.mem_append, List.mem_replicate, not_or]
    exact ⟨by decide, by simp⟩
  have hskip : findDoubleCrlf (longReason n) =
      (List.position (CRLF ++ CRLF) (CRLF ++ CRLF ++ [123, 125])).map (· + _) :=
    List.position_append_of_notMem hfront
  rw [List.length_append, List.length_replicate] at hskip
  exact hskip.trans (congrArg some (Nat.zero_add _))

/-- A header block one byte beyond its limit is refused byte by byte, and read in long pieces. -/
theorem header_block_at_limit : ¬ReadsAlike ascii (longReason 32752) := by
  intro h
  obtain ⟨reads, reads', hreads, hreads', hmissed, hfound⟩ :=
    unsettled_head ascii (findDoubleCrlf_longReason 32752) (by decide) (by decide)
  exact hfound (h.alike reads reads' hreads hreads' ▸ hmissed)

end Snapd

end Config

end Myna

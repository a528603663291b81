import Myna.Config.SnapdChunks

/-!
# Myna — the other framings, and what `read_response` can return

A body with a length is refused when a read goes beyond the limit on a response, though the body
itself does not; one that ends with the connection is refused exactly if it is too long. Whatever is
returned after the header block is `Sound`.

* **`readLength_of_fits`**, **`readLength_ones`**, **`readLength_jump`** — a body with its length;
* **`readToClose_eq`** — a body that ends with the connection;
* **`sound_readBody`** — no framing holds more than the limit.
-/

namespace Myna

namespace Config

namespace Snapd

variable {std : Std} {len : ℕ} {body sent : Bytes} {reads : List Bytes}

/-! ## A body with its length -/

theorem readLength_done (h : len ≤ body.length) :
    readLength len body reads = .ok (body.take len) := by
  cases reads with
  | nil => rw [readLength, if_neg (Nat.not_lt.mpr h)]
  | cons bytes reads => rw [readLength, if_neg (Nat.not_lt.mpr h)]

theorem readLength_read {bytes : Bytes} (h : body.length < len)
    (hroom : body.length + bytes.length ≤ MAX_RESPONSE_BYTES) :
    readLength len body (bytes :: reads) = readLength len (body ++ bytes) reads := by
  rw [readLength, if_pos h, if_neg (Nat.not_lt.mpr hroom)]

theorem readLength_short (hlen : len ≤ MAX_RESPONSE_BYTES)
    (hshort : (body ++ reads.flatten).length < len) :
    readLength len body reads = .error (closedInLength (body ++ reads.flatten)) := by
  induction reads generalizing body with
  | nil =>
    rw [List.flatten_nil, List.append_nil] at hshort ⊢
    rw [readLength, if_pos hshort]
  | cons bytes reads ih =>
    rw [List.flatten_cons, ← List.append_assoc] at hshort ⊢
    have hall := hshort
    rw [List.length_append, List.length_append] at hall
    rw [readLength_read (by omega) (by omega), ih hshort]

/-- A body within its limit by the reads' length, or with nothing beyond it, is read. -/
theorem readLength_of_fits {width : ℕ} (hwidth : ∀ bytes ∈ reads, bytes.length ≤ width)
    (hlong : len ≤ (body ++ reads.flatten).length)
    (hfits : (body ++ reads.flatten).length ≤ MAX_RESPONSE_BYTES ∨
      len + width ≤ MAX_RESPONSE_BYTES + 1) :
    readLength len body reads = .ok ((body ++ reads.flatten).take len) := by
  induction reads generalizing body with
  | nil =>
    rw [List.flatten_nil, List.append_nil] at hlong ⊢
    exact readLength_done hlong
  | cons bytes reads ih =>
    rcases Nat.lt_or_ge body.length len with hmore | hdone
    · have hbytes := hwidth bytes List.mem_cons_self
      have hall : (body ++ (bytes :: reads).flatten).length =
          body.length + bytes.length + reads.flatten.length := by
        simp [Nat.add_assoc]
      rw [readLength_read hmore (by omega)]
      rw [List.flatten_cons, ← List.append_assoc] at hlong hfits ⊢
      exact ih (fun b hb => hwidth b (List.mem_cons_of_mem _ hb)) hlong hfits
    · rw [readLength_done hdone, List.take_append_of_le_length hdone]

/-- Byte by byte, nothing beyond the body is read. -/
theorem readLength_ones (hlen : len ≤ MAX_RESPONSE_BYTES) (hlong : len ≤ sent.length) :
    readLength len [] (List.ones sent) = .ok (sent.take len) := by
  have hsplit := List.splits_ones le_rfl sent
  have hread : readLength len [] (List.ones sent) =
      .ok (([] ++ (List.ones sent).flatten).take len) :=
    readLength_of_fits (fun bytes hbytes => (hsplit.pieces bytes hbytes).2)
      (by rw [hsplit.flatten]; exact hlong) (.inr (by omega))
  rw [hread, List.nil_append, hsplit.flatten]

theorem readLength_ones_append {more : Bytes} (hmore : body.length + more.length < len)
    (hlen : len ≤ MAX_RESPONSE_BYTES) :
    readLength len body (List.ones more ++ reads) = readLength len (body ++ more) reads := by
  induction more generalizing body with
  | nil => rw [List.append_nil]; rfl
  | cons b more ih =>
    rw [List.length_cons] at hmore
    show readLength len body ([b] :: (List.ones more ++ reads)) = _
    have hone : (body ++ [b]).length = body.length + 1 := List.length_append
    have hbyte : [b].length = 1 := rfl
    rw [readLength_read (by omega) (by omega), ih (by omega), List.append_assoc]
    rfl

/-- A read from just before the end of the body to just beyond the limit is refused. -/
theorem readLength_jump (hpos : 0 < len) (hlen : len ≤ MAX_RESPONSE_BYTES)
    (hlong : MAX_RESPONSE_BYTES < sent.length) :
    readLength len [] (List.jump len (MAX_RESPONSE_BYTES + 1) sent ++ reads) =
      .error .responseTooLarge := by
  have hmin : min (MAX_RESPONSE_BYTES + 1) len - 1 = len - 1 := by omega
  have hfront : (sent.take (len - 1)).length = len - 1 := List.length_take_of_le (by omega)
  have hlast : ((sent.take (MAX_RESPONSE_BYTES + 1)).drop (len - 1)).length =
      MAX_RESPONSE_BYTES + 1 - (len - 1) := by
    rw [List.length_drop, List.length_take_of_le hlong]
  have hnil : ([] : Bytes).length = 0 := rfl
  rw [List.jump, hmin, List.append_assoc, readLength_ones_append (by omega) hlen,
    List.nil_append, List.singleton_append, readLength, if_pos (by omega), if_pos (by omega)]

/-! ## A body that ends with the connection -/

theorem readToClose_eq (hroom : body.length ≤ MAX_RESPONSE_BYTES) :
    readToClose body reads =
      if MAX_RESPONSE_BYTES < (body ++ reads.flatten).length then .error .responseTooLarge
      else .ok (body ++ reads.flatten) := by
  induction reads generalizing body with
  | nil =>
    rw [List.flatten_nil, List.append_nil, readToClose, if_neg (Nat.not_lt.mpr hroom)]
  | cons bytes reads ih =>
    rw [readToClose, List.flatten_cons, ← List.append_assoc]
    split
    · next hlong =>
      rw [if_pos]
      rw [List.length_append, List.length_append]
      omega
    · next hfits =>
      exact ih (by rw [List.length_append]; omega)

/-! ## What can be returned after the header block -/

/-- An error that the first loop does not make, and that quotes no more than the limit of what was
read. -/
inductive Late : SnapdError → Prop
  | responseTooLarge : Late .responseTooLarge
  | text {message body : List Char} (h : message.head? ≠ some 's') :
    Late (protocolText message body)
  | lossy {message : List Char} {bytes : Bytes} (h : bytes.length ≤ MAX_RESPONSE_BYTES) :
    Late (.protocol message (.lossy bytes))
  | snapd (statusCode : ℕ) (message : List Char) : Late (.snapd statusCode message)

theorem Late.ne_headersExceeded {e : SnapdError} (h : Late e) : e ≠ headersExceeded := by
  cases h with
  | responseTooLarge => simp [headersExceeded, protocolText]
  | text hhead =>
    intro heq
    simp only [headersExceeded, protocolText, SnapdError.protocol.injEq] at heq
    rw [heq.1] at hhead
    simp at hhead
  | lossy => simp [headersExceeded, protocolText]
  | snapd => simp [headersExceeded, protocolText]

/-- A body within the limit, or such an error. -/
def Sound : Except SnapdError Bytes → Prop
  | .ok body => body.length ≤ MAX_RESPONSE_BYTES
  | .error e => Late e

section Headers

variable {line value : List Char} {e : SnapdError}

theorem late_agreedLength {agreed : Option ℕ} {parts : List (List Char)}
    (h : agreedLength std line value agreed parts = .error e) : Late e := by
  induction parts generalizing agreed with
  | nil =>
    cases agreed with
    | none =>
      rw [agreedLength] at h
      cases h
      exact .text (by simp)
    | some n =>
      rw [agreedLength] at h
      cases h
  | cons part parts ih =>
    simp only [agreedLength] at h
    split at h
    · cases h
      exact .text (by simp)
    · split at h
      · exact ih h
      · cases h
        exact .text (by simp)

theorem late_soleCoding (h : soleCoding std line value = .error e) : Late e := by
  unfold soleCoding at h
  split at h
  · cases h
    exact .text (by simp)
  · split at h
    · cases h
    · cases h
      exact .text (by simp)
  · cases h
    exact .text (by simp)

theorem late_line {framing : Framing} (h : framing.line std line = .error e) : Late e := by
  unfold Framing.line at h
  split at h
  · cases h
  · next name value _ =>
    dsimp only at h
    split at h
    · cases hlength : agreedLength std line (trim value) none (commaParts (trim value)) with
      | error e' =>
        rw [hlength] at h
        cases h
        exact late_agreedLength hlength
      | ok newLen =>
        rw [hlength] at h
        simp only [bind, Except.bind] at h
        split at h
        · split at h
          · cases h
            exact .text (by simp)
          · cases h
        · cases h
    · split at h
      · cases hcoding : soleCoding std line (trim value) with
        | error e' =>
          rw [hcoding] at h
          cases h
          exact late_soleCoding hcoding
        | ok =>
          rw [hcoding] at h
          cases h
      · cases h

theorem late_lines {lines : List (List Char)} {framing : Framing}
    (h : lines.foldlM (Framing.line std) framing = .error e) : Late e := by
  induction lines generalizing framing with
  | nil => cases h
  | cons line lines ih =>
    rw [List.foldlM_cons] at h
    cases hline : framing.line std line with
    | error e' =>
      rw [hline] at h
      cases h
      exact late_line hline
    | ok framing' =>
      rw [hline] at h
      exact ih h

theorem late_headersOf {block : Bytes} (h : headersOf std block = .error e) : Late e := by
  unfold headersOf at h
  split at h
  · cases h
    exact .text (by simp)
  · next text _ =>
    unfold parseHeaders at h
    dsimp only at h
    split at h
    · cases h
      exact .text (by simp)
    · split at h
      · cases h
        exact .text (by simp)
      · cases hlines : (splitCrlf [] text).tail.foldlM (Framing.line std) {} with
        | error e' =>
          rw [hlines] at h
          cases h
          exact late_lines hlines
        | ok framing =>
          rw [hlines] at h
          simp only [bind, Except.bind] at h
          split at h
          · cases h
            exact .text (by simp)
          · cases h

end Headers

theorem late_decodeChunked {e : SnapdError} (h : decodeChunked std sent = .error e) : Late e := by
  unfold decodeChunked at h
  split at h
  · split at h <;> cases h
    exact .responseTooLarge
  · next lineEnd _ =>
    cases hsize : chunkSize std (sent.take lineEnd) with
    | error e' =>
      rw [hsize] at h
      cases h
      unfold chunkSize at hsize
      split at hsize
      · cases hsize
        exact .text (by simp)
      · dsimp only at hsize
        split at hsize
        · cases hsize
          exact .text (by simp)
        · split at hsize
          · cases hsize
            exact .text (by simp)
          · split at hsize <;> cases hsize
            exact .responseTooLarge
    | ok size =>
      simp only [hsize, bind, Except.bind] at h
      split at h
      · cases h
      · split at h
        · cases h
          exact .text (by simp)
        · split at h <;> cases h

theorem sound_readLength (hlen : len ≤ MAX_RESPONSE_BYTES) :
    Sound (readLength len body reads) := by
  induction reads generalizing body with
  | nil =>
    rw [readLength]
    split
    · next hshort => exact .lossy (by omega)
    · show (body.take len).length ≤ _
      rw [List.length_take]
      omega
  | cons bytes reads ih =>
    rw [readLength]
    split
    · split
      · exact .responseTooLarge
      · exact ih
    · show (body.take len).length ≤ _
      rw [List.length_take]
      omega

theorem sound_readToClose (hroom : body.length ≤ MAX_RESPONSE_BYTES) :
    Sound (readToClose body reads) := by
  rw [readToClose_eq hroom]
  split
  · exact .responseTooLarge
  · next hfits => exact Nat.not_lt.mp hfits

theorem sound_readChunked {pending : Bytes} (hroom : body.length ≤ MAX_RESPONSE_BYTES) :
    Sound (readChunked std body pending reads) := by
  induction body, pending, reads using readChunked.induct std with
  | case1 body pending reads e hstep =>
    rw [readChunked_error hstep]
    exact late_decodeChunked hstep
  | case2 body pending reads rest hstep =>
    rw [readChunked_complete hstep]
    exact hroom
  | case3 body pending reads hstep hfull =>
    rw [readChunked_needMore hstep, if_pos hfull]
    exact .responseTooLarge
  | case4 body pending hstep hfull =>
    rw [readChunked_needMore hstep, if_neg hfull]
    exact .lossy (Nat.not_le.mp hfull).le
  | case5 body pending hstep hfull bytes reads ih =>
    rw [readChunked_needMore hstep, if_neg hfull]
    exact ih hroom
  | case6 body pending reads data rest hstep hlong =>
    rw [readChunked_chunk hstep, if_pos hlong]
    exact .responseTooLarge
  | case7 body pending reads data rest hstep hlong ih =>
    rw [readChunked_chunk hstep, if_neg hlong]
    refine ih ?_
    rw [List.length_append]
    omega

/-- **No framing holds more than the limit on a response.** -/
theorem sound_readBody {headers : Headers} {rest : Bytes}
    (hrest : rest.length ≤ MAX_RESPONSE_BYTES) : Sound (readBody std headers rest reads) := by
  unfold readBody
  split
  · split
    · exact .responseTooLarge
    · next hlen => exact sound_readLength (Nat.not_lt.mp hlen)
  · split
    · exact sound_readChunked (Nat.zero_le _)
    · exact sound_readToClose hrest

theorem sound_acceptBody {headers : Headers} (hbody : body.length ≤ MAX_RESPONSE_BYTES) :
    Sound (acceptBody std headers body) := by
  unfold acceptBody
  split
  · exact .text (by simp)
  · split
    · exact hbody
    · split
      · exact hbody
      · exact .snapd _ _

end Snapd

end Config

end Myna

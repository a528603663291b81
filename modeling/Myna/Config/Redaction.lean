import Mathlib.Data.List.Infix
import Myna.Desktop.CommitBuffer
import Myna.Lib.Replace

/-!
# Myna — redaction (`myna_config::diagnostics`)

What comes from outside goes into a report with the values of `key=value` words hidden whose key
looks sensitive, and with the user's home directory written as `~`. What counts as alphanumeric is
asked of Unicode, which is a parameter.

* **`redactText_secrets`** — texts that differ in hidden values only come out the same;
* **`scrubHome_replaced`** — the home directory is replaced where it stands alone, and nothing else
  changes.
-/

namespace Myna

namespace Config

namespace Diagnostics

open Desktop (isWhitespace)

abbrev Text := List Char

def PLACEHOLDER_REDACTED : Text := "[redacted]".toList

def SENSITIVE_KEY_SUBSTRINGS : List Text :=
  ["token", "secret", "password", "passwd", "auth", "credential", "cookie", "api-key",
    "apikey"].map String.toList

/-! ## Secrets -/

/-- The key has a sensitive substring. -/
def sensitive (key : Text) : Bool :=
  let keyLower := (key.dropWhile (· = '-')).map Char.toLower
  SENSITIVE_KEY_SUBSTRINGS.any fun needle => needle <:+: keyLower

def scrubToken (token : Text) : Text :=
  let word := token.rdropWhile isWhitespace
  let trailing := token.rtakeWhile isWhitespace
  match List.splitOnce ['='] word with
  | some (key, _) =>
    if sensitive key then key ++ '=' :: PLACEHOLDER_REDACTED ++ trailing else token
  | none => token

def scrubSecretAssignments (value : Text) : Text :=
  (value.splitInclusive isWhitespace).flatMap scrubToken

/-- Texts that differ in values only of words whose key, what comes before their first `=`, is
sensitive. -/
inductive SameButSecrets : Text → Text → Prop
  | refl (text : Text) : SameButSecrets text text
  | value {pre key value value' post : Text} (hpre : ∀ c ∈ pre.getLast?, isWhitespace c = true)
      (hkey : ∀ c ∈ key, c ≠ '=' ∧ isWhitespace c = false) (hsensitive : sensitive key = true)
      (hvalue : ∀ c ∈ value, isWhitespace c = false)
      (hvalue' : ∀ c ∈ value', isWhitespace c = false)
      (hpost : ∀ c ∈ post.head?, isWhitespace c = true) :
      SameButSecrets (pre ++ (key ++ '=' :: value ++ post)) (pre ++ (key ++ '=' :: value' ++ post))
  | trans {text text' text'' : Text} (h : SameButSecrets text text')
      (h' : SameButSecrets text' text'') : SameButSecrets text text''

theorem word_trimmed {word trailing : Text} (hword : ∀ c ∈ word, isWhitespace c = false)
    (htrailing : ∀ c ∈ trailing, isWhitespace c = true) :
    (word ++ trailing).rdropWhile isWhitespace = word ∧
      (word ++ trailing).rtakeWhile isWhitespace = trailing := by
  have hdrop : (word ++ trailing).rdropWhile isWhitespace = word := by
    rw [List.rdropWhile_append_of_all word htrailing]
    exact List.rdropWhile_eq_self_of_getLast fun c hc => hword c (List.mem_of_getLast? hc)
  have happend : (word ++ trailing).rdropWhile isWhitespace ++
      (word ++ trailing).rtakeWhile isWhitespace = word ++ trailing :=
    List.rdropWhile_append_rtakeWhile
  rw [hdrop] at happend
  exact ⟨hdrop, List.append_cancel_left happend⟩

/-- The value goes, whatever it is. -/
theorem scrubToken_secret {key value trailing : Text}
    (hkey : ∀ c ∈ key, c ≠ '=' ∧ isWhitespace c = false) (hsensitive : sensitive key = true)
    (hvalue : ∀ c ∈ value, isWhitespace c = false)
    (htrailing : ∀ c ∈ trailing, isWhitespace c = true) :
    scrubToken (key ++ '=' :: value ++ trailing) =
      key ++ '=' :: PLACEHOLDER_REDACTED ++ trailing := by
  have hword : ∀ c ∈ key ++ '=' :: value, isWhitespace c = false := by
    intro c hc
    rcases List.mem_append.mp hc with hc | hc
    · exact (hkey c hc).2
    · rcases List.mem_cons.mp hc with rfl | hc
      · rfl
      · exact hvalue c hc
  obtain ⟨hdrop, htake⟩ := word_trimmed hword htrailing
  have hsplit : List.splitOnce ['='] (key ++ '=' :: value) = some (key, value) :=
    List.splitOnce_singleton.mpr ⟨rfl, fun hmem => (hkey '=' hmem).1 rfl⟩
  unfold scrubToken
  dsimp only
  rw [hdrop, htake, hsplit]
  exact if_pos hsensitive

/-- A word is scrubbed by itself. -/
theorem scrubSecretAssignments_word {pre word post : Text}
    (hpre : ∀ c ∈ pre.getLast?, isWhitespace c = true)
    (hword : ∀ c ∈ word, isWhitespace c = false) (hne : word ≠ [])
    (hpost : ∀ c ∈ post.head?, isWhitespace c = true) :
    scrubSecretAssignments (pre ++ (word ++ post)) =
      scrubSecretAssignments pre ++
        (scrubToken (word ++ post.take 1) ++ scrubSecretAssignments (post.drop 1)) := by
  unfold scrubSecretAssignments
  rw [List.splitInclusive_append hpre, List.splitInclusive_word hword hne hpost,
    List.flatMap_append, List.flatMap_cons]

theorem SameButSecrets.scrubbed {text text' : Text} (h : SameButSecrets text text') :
    scrubSecretAssignments text = scrubSecretAssignments text' := by
  induction h with
  | refl text => rfl
  | trans _ _ ih ih' => exact ih.trans ih'
  | @value pre key value value' post hpre hkey hsensitive hvalue hvalue' hpost =>
    have htake : ∀ c ∈ post.take 1, isWhitespace c = true := by
      cases post with
      | nil => exact fun _ hc => absurd hc List.not_mem_nil
      | cons a post =>
        intro c hc
        obtain rfl : c = a := List.mem_singleton.mp hc
        exact hpost c rfl
    have hword : ∀ value : Text, (∀ c ∈ value, isWhitespace c = false) →
        scrubSecretAssignments (pre ++ (key ++ '=' :: value ++ post)) =
          scrubSecretAssignments pre ++ (key ++ '=' :: PLACEHOLDER_REDACTED ++ post.take 1 ++
            scrubSecretAssignments (post.drop 1)) := by
      intro value hvalue
      have hinked : ∀ c ∈ key ++ '=' :: value, isWhitespace c = false := by
        intro c hc
        rcases List.mem_append.mp hc with hc | hc
        · exact (hkey c hc).2
        · rcases List.mem_cons.mp hc with rfl | hc
          · rfl
          · exact hvalue c hc
      rw [scrubSecretAssignments_word hpre hinked (by simp) hpost,
        scrubToken_secret hkey hsensitive hvalue htake]
    rw [hword value hvalue, hword value' hvalue']

/-! ## The home directory -/

section Home

-- `char::is_alphanumeric`
variable (isAlphanumeric : Char → Bool)

def isNameChar (c : Char) : Bool := isAlphanumeric c || c = '_' || c = '-' || c = '.'

def insideALongerPath (before : Option Char) : Bool :=
  before.any fun c => isNameChar isAlphanumeric c || c = '/'

/-- The loop over the occurrences of the home directory, after `before`. -/
def scrubFrom (home : Text) : ℕ → Option Char → Text → Text
  | 0, _, value => value
  | fuel + 1, before, value =>
    match List.splitOnce home value with
    | none => value
    | some (skipped, rest) =>
      skipped ++
        (if insideALongerPath isAlphanumeric (skipped.getLast?.or before) ||
            rest.head?.any (isNameChar isAlphanumeric) then home else ['~']) ++
        scrubFrom home fuel home.getLast? rest

/-- `home.trim_end_matches('/')`. -/
def trimHome (home : Text) : Text := home.rdropWhile (· = '/')

def scrubHome (value home : Text) : Text :=
  if trimHome home = [] then value
  else scrubFrom isAlphanumeric (trimHome home) value.length none value

/-- `redact_text`, for the user's home directory. -/
def redactText (home value : Text) : Text :=
  scrubHome isAlphanumeric (scrubSecretAssignments value) home

/-- What is around an occurrence of the home directory neither makes it part of a longer path nor
goes on with its last component. -/
def Alone (before after : Option Char) : Prop :=
  insideALongerPath isAlphanumeric before = false ∧
    after.any (isNameChar isAlphanumeric) = false

/-- Nothing but a component of a longer path comes before an occurrence that overlaps another. -/
def Apart (home : Text) : Prop := home.ApartFrom (Alone isAlphanumeric)

variable {isAlphanumeric} {home : Text}

/-- The scan goes from one occurrence to the next, whether or not it replaces it. -/
theorem scrubFrom_replaced (hne : home ≠ []) (hapart : Apart isAlphanumeric home) {fuel : ℕ}
    {before : Option Char} {value : Text} (hfuel : value.length ≤ fuel) :
    List.Replaced home '~' (Alone isAlphanumeric) before value
      (scrubFrom isAlphanumeric home fuel before value) := by
  have hkept : ∀ (before : Option Char) (value : Text), List.splitOnce home value = none →
      List.Replaced home '~' (Alone isAlphanumeric) before value value := by
    intro before value hnone
    have hnil : List.Replaced home '~' (Alone isAlphanumeric) (value.getLast?.or before) [] [] :=
      .nil _
    have hrun : List.Replaced home '~' (Alone isAlphanumeric) before (value ++ [])
        (value ++ []) := by
      refine .keep_append ?_ hnil
      rintro pre suf hsplit - ⟨rest, hrest, -⟩
      rw [List.append_nil] at hrest
      exact List.splitOnce_none hnone pre suf hsplit (hrest ▸ List.prefix_append home rest)
    rwa [List.append_nil] at hrun
  induction fuel generalizing before value with
  | zero =>
    obtain rfl : value = [] := List.eq_nil_of_length_eq_zero (Nat.le_zero.mp hfuel)
    exact .nil _
  | succ fuel ih =>
    rw [scrubFrom]
    cases hsplit : List.splitOnce home value with
    | none => exact hkept before value hsplit
    | some parts =>
      obtain ⟨skipped, rest⟩ := parts
      have hvalue := List.splitOnce_eq_some hsplit
      have hlength := congrArg List.length hvalue
      have hpos := List.length_pos_iff.mpr hne
      rw [List.length_append, List.length_append] at hlength
      have htail : List.Replaced home '~' (Alone isAlphanumeric) home.getLast? rest
          (scrubFrom isAlphanumeric home fuel home.getLast? rest) := ih (by omega)
      rw [hvalue, List.append_assoc]
      dsimp only
      rw [List.append_assoc]
      refine .keep_append ?_ ?_
      · rintro pre suf hskipped hsuf ⟨rest', hrest, -⟩
        exact List.splitOnce_first hsplit pre suf hskipped hsuf
          (hrest ▸ List.prefix_append home rest')
      · split_ifs with haround
        · refine .keep_pat hapart ?_ hne htail
          rintro ⟨hbefore, hafter⟩
          rw [hbefore, hafter] at haround
          cases haround
        · rw [Bool.or_eq_true, not_or, Bool.not_eq_true, Bool.not_eq_true] at haround
          exact .sub haround htail

/-- **The home directory is replaced where it stands alone, and nothing else changes.** -/
theorem scrubHome_replaced (hne : trimHome home ≠ [])
    (hapart : Apart isAlphanumeric (trimHome home)) (value : Text) :
    List.Replaced (trimHome home) '~' (Alone isAlphanumeric) none value
      (scrubHome isAlphanumeric value home) := by
  rw [scrubHome, if_neg hne]
  exact scrubFrom_replaced hne hapart (Nat.le_refl _)

/-- A path from the root, without the character that stands for it. -/
structure FromRoot (home : Text) : Prop where
  root : home.head? = some '/'
  tilde : '~' ∉ home

theorem scrubHome_not_alone (hslash : isAlphanumeric '/' = false) (hroot : FromRoot (trimHome home))
    (hapart : Apart isAlphanumeric (trimHome home)) {value pre post : Text}
    (hout : scrubHome isAlphanumeric value home = pre ++ (trimHome home ++ post))
    (hpre : pre.getLast? ≠ some '~') : ¬Alone isAlphanumeric pre.getLast? post.head? := by
  have hne : trimHome home ≠ [] := by
    intro hnil
    have hhead := hroot.root
    rw [hnil] at hhead
    cases hhead
  have hnext : ∀ before, Alone isAlphanumeric before (some '~') →
      Alone isAlphanumeric before (trimHome home).head? := by
    intro before halone
    rw [hroot.root]
    exact ⟨halone.1, by simp [isNameChar, hslash]⟩
  have hrun := (scrubHome_replaced hne hapart value).not_alone hne hroot.tilde hnext hout hpre
  rwa [Option.or_none] at hrun

end Home

/-- Texts that differ in hidden values only are redacted to the same. The home directory is replaced
where it stands alone, nothing else changes, and nowhere in the result does it stand alone, unless
right after an occurrence that was replaced or a `~`. -/
theorem redact_text_hides (isAlphanumeric : Char → Bool) (hslash : isAlphanumeric '/' = false)
    (home : Text) :
    (∀ text text', SameButSecrets text text' →
      redactText isAlphanumeric home text = redactText isAlphanumeric home text') ∧
    (trimHome home ≠ [] → Apart isAlphanumeric (trimHome home) → ∀ value,
      List.Replaced (trimHome home) '~' (Alone isAlphanumeric) none value
        (scrubHome isAlphanumeric value home)) ∧
    (FromRoot (trimHome home) → Apart isAlphanumeric (trimHome home) → ∀ value pre post,
      scrubHome isAlphanumeric value home = pre ++ (trimHome home ++ post) →
        pre.getLast? ≠ some '~' → ¬Alone isAlphanumeric pre.getLast? post.head?) :=
  ⟨fun _ _ h => congrArg (scrubHome isAlphanumeric · home) h.scrubbed,
    scrubHome_replaced,
    fun hroot hapart _ _ _ => scrubHome_not_alone hslash hroot hapart⟩

/-- A token that `--token=` gives is hidden, of ASCII text. -/
theorem token_hidden :
    redactText Char.isAlphanum "/home/alice/".toList "--token=abc at /home/alice/x".toList =
      redactText Char.isAlphanum "/home/alice/".toList "--token=xyz at /home/alice/x".toList :=
  (redact_text_hides Char.isAlphanum rfl "/home/alice/".toList).1 _ _
    (@SameButSecrets.value [] "--token".toList "abc".toList "xyz".toList
      " at /home/alice/x".toList (by simp) (by simp [isWhitespace]) (by decide +kernel)
      (by simp [isWhitespace]) (by simp [isWhitespace]) (by simp [isWhitespace]))

/-- The home directory as part of a longer path stays; so do a token after the first `=` of its
word, a home at the end of a sentence, and one in a URI. -/
theorem token_in_query_shown :
    scrubHome Char.isAlphanum "/srv/home/alice/x".toList "/home/alice".toList =
      "/srv/home/alice/x".toList ∧
    redactText Char.isAlphanum "/home/alice".toList "GET /x?id=1&token=abc".toList =
      "GET /x?id=1&token=abc".toList ∧
    scrubHome Char.isAlphanum "at /home/alice.".toList "/home/alice".toList =
      "at /home/alice.".toList ∧
    scrubHome Char.isAlphanum "file:///home/alice/x".toList "/home/alice".toList =
      "file:///home/alice/x".toList :=
  ⟨by decide +kernel, by decide +kernel, by decide +kernel, by decide +kernel⟩

end Diagnostics

end Config

end Myna

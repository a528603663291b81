import Myna.Client.Capture
import Myna.Client.Keywords
import Myna.Lib.Json

/-!
# Myna — how a session is opened (`ws_unix_ie115::open_session`, `myna.core.wire_ie115`)

The server greets with what a session is by default, and so tells whether it takes keywords. The
client answers with a `session.update`, which the server reads back into its own configuration,
refusing what it does not serve. A field that a client may set to anything is the JSON that it is.

* **`Client.openSession`** — what the client answers a greeting;
* **`Server.handleIe115`** — what the server makes of the answer;
* **`handshake`** — the one admits what the other sent.
-/

namespace Myna

namespace SessionWire

def SESSION_CREATED : String := "session.created"

def SESSION_UPDATE : String := "session.update"

/-! ## The client -/

namespace Client

structure SessionConfig where
  audioFormat : AudioFormat := {}
  language : Option String := none
  outputLanguage : Option String := none
  prompt : Option String := none
  timestampGranularity : Option String := none
  keywords : List String := []
deriving DecidableEq

def DEFAULT_WS_PATH : String := "/"

def sessionUpdateFrame (config : SessionConfig) : Json :=
  let transcription :=
    (config.language.map fun language => ("language", Json.str language)).toList ++
    (config.prompt.map fun prompt => ("prompt", Json.str prompt)).toList ++
    if config.keywords.isEmpty then [] else [("keywords", Json.arr (config.keywords.map .str))]
  let format :=
    Json.obj [("type", .str "audio/pcm"), ("rate", .int config.audioFormat.sampleRateHz)]
  let input := [("format", format)] ++
    if transcription.isEmpty then [] else [("transcription", Json.obj transcription)]
  .obj [("type", .str SESSION_UPDATE),
    ("session", .obj [("type", .str "transcription"), ("audio", .obj [("input", .obj input)])])]

/-- `serde_json::Value::pointer`, with no token that is a number. -/
def pointer (value : Json) (tokens : List String) : Option Json :=
  tokens.foldl (fun value token => value.bind fun value => value.get? token) (some value)

def takesKeywords (greeting : Json) : Bool :=
  (greeting.get? "type").bind Json.asStr = some SESSION_CREATED &&
    match pointer greeting ["session", "audio", "input", "transcription", "keywords"] with
    | some (.arr _) => true
    | _ => false

/-- What is sent after the greeting, if one came in time, and what of the configuration. -/
def openSession (wsPath : String) (greeting : Option Json) (config : SessionConfig) :
    SessionConfig × Option Json :=
  let config :=
    if !config.keywords.isEmpty && !greeting.any takesKeywords then { config with keywords := [] }
    else config
  let hasConfig := config.language.isSome || config.prompt.isSome || !config.keywords.isEmpty
  let needsShapeSniff := wsPath = DEFAULT_WS_PATH
  (config, if hasConfig || needsShapeSniff then some (sessionUpdateFrame config) else none)

end Client

/-! ## The server -/

namespace Server

open Myna.Keywords.Server (normalizeKeywords strip)

def IE115_PCM_RATE : ℤ := 24000

/-- Mono 16-bit PCM at `sampleRateHz`; `null` is `None`. -/
structure SessionConfig where
  sampleRateHz : ℤ
  language : Json := .null
  prompt : Json := .null
  timestampGranularity : Json := .null
  keywords : List Json := []

/-- As far as a session reads it. -/
structure Capabilities where
  models : List String
  keywords : Bool

inductive PyError
  | attributeError
  | typeError
  | valueError
deriving DecidableEq

/-- `bool(value)`. -/
def truthy : Json → Bool
  | .null => false
  | .bool b => b
  | .int n => n ≠ 0
  | .float x => x ≠ 0
  | .str s => s ≠ ""
  | .arr items => !items.isEmpty
  | .obj fields => !fields.isEmpty

/-- `value.get(key, missing)`. -/
def get (value : Json) (key : String) (missing : Json := .null) : Except PyError Json :=
  match value with
  | .obj fields => .ok ((Dict.get? fields key).getD missing)
  | _ => .error .attributeError

/-- `value or other`. -/
def or (value other : Json) : Json := if truthy value then value else other

/-- `value or {}`. -/
def orDict (value : Json) : Json := or value (.obj [])

/-- `tuple(value or ())`. -/
def tuple (value : Json) : Except PyError (List Json) :=
  if truthy value then
    match value with
    | .arr items => .ok items
    | .str s => .ok (s.toList.map fun c => .str (String.singleton c))
    | .obj fields => .ok (fields.map fun entry => .str entry.1)
    | _ => .error .typeError
  else .ok []

section

variable (intText : String → Option ℤ)

/-- `int(value)`, where `intText` is that of a text. -/
def int : Json → Except PyError ℤ
  | .bool b => .ok (if b then 1 else 0)
  | .int n => .ok n
  | .float x => .ok (Int.tdiv x.num x.den)
  | .str s => (intText s).elim (.error .valueError) .ok
  | _ => .error .typeError

def sessionConfigFromIe115 (session : Json) : Except PyError SessionConfig := do
  let audioInput := orDict (← get (orDict (← get session "audio")) "input")
  let fmt := orDict (← get audioInput "format")
  let transcription := orDict (← get audioInput "transcription")
  let rate ← int intText (← get fmt "rate" (.int IE115_PCM_RATE))
  let language ← get transcription "language"
  let prompt := or (← get transcription "prompt") (← get session "prompt")
  let timestampGranularity ← get transcription "timestamp_granularity"
  let keywords ← tuple (← get transcription "keywords")
  return ⟨rate, language, prompt, timestampGranularity, keywords⟩

/-- `_parse_session_update` of a text frame: the configuration and the model that is asked for. -/
def parseSessionUpdate (message : Json) : Except PyError (Option (SessionConfig × Json)) :=
  let read : Except PyError (Option (SessionConfig × Json)) := do
    match ← get message "type" with
    | .str type =>
      if type = SESSION_UPDATE then
        let session := orDict (← get message "session")
        let transcription := orDict (← get (orDict (← get (orDict (← get session "audio")) "input"))
          "transcription")
        return some (← sessionConfigFromIe115 intText session, ← get transcription "model")
      else return none
    | _ => return none
  match read with
  | .error .attributeError => .error .attributeError
  | .error _ => .ok none
  | .ok update => .ok update

/-- Why a configuration is not admitted. -/
inductive NotAdmitted
  | keywords (error : Myna.Keywords.Server.ValueError)
  | notTaken
  | crash (error : PyError)
deriving DecidableEq

/-- The entries that are looked at by `normalize_keywords`, which calls `strip` on them. -/
def entryTexts : List Json → Except PyError (List String)
  | [] => .ok []
  | .str s :: rest => (entryTexts rest).map (s :: ·)
  | value :: rest => if truthy value then .error .attributeError else entryTexts rest

def admitKeywords (config : SessionConfig) (supported : Bool) :
    Except NotAdmitted SessionConfig :=
  match entryTexts config.keywords with
  | .error error => .error (.crash error)
  | .ok entries =>
    match normalizeKeywords entries with
    | .error error => .error (.keywords error)
    | .ok keywords =>
      if !keywords.isEmpty && !supported then .error .notTaken
      else .ok { config with keywords := keywords.map .str }

/-- What becomes of a connection's first frame. -/
inductive Opening
  | notIe115
  | crashed (error : PyError)
  | modelNotAvailable
  | notAdmitted (why : NotAdmitted)
  | session (config : SessionConfig) (model : Option String)

/-- `requested_model is not None and requested_model not in caps.models`. -/
def unavailable (caps : Capabilities) : Json → Bool
  | .null => false
  | .str model => model ∉ caps.models
  | _ => true

def handleIe115 (caps : Capabilities) (opening : Json) : Opening :=
  match parseSessionUpdate intText opening with
  | .error error => .crashed error
  | .ok none => .notIe115
  | .ok (some (config, requestedModel)) =>
    if unavailable caps requestedModel then .modelNotAvailable
    else
      let model := match requestedModel with
        | .str model => if model = "" then caps.models.head? else some model
        | _ => caps.models.head?
      match admitKeywords config caps.keywords with
      | .error why => .notAdmitted why
      | .ok config => .session config model

end

/-- `session_config_to_ie115`, for strings. -/
def sessionConfigToIe115 (config : SessionConfig) (model : Option String) (streaming : Option Bool)
    (keywordsSupported : Bool) : Json :=
  let shown (key : String) (value : Json) : List (String × Json) :=
    match value with
    | .null => []
    | value => [(key, value)]
  let transcription :=
    (model.map fun model => ("model", Json.str model)).toList ++
    shown "language" config.language ++ shown "prompt" config.prompt ++
    shown "timestamp_granularity" config.timestampGranularity ++
    if !config.keywords.isEmpty || keywordsSupported then [("keywords", Json.arr config.keywords)]
    else []
  let format := Json.obj [("type", .str "audio/pcm"), ("rate", .int config.sampleRateHz)]
  let input := Json.obj [("format", format), ("transcription", .obj transcription)]
  .obj ([("type", .str "transcription"), ("audio", .obj [("input", input)])] ++
    (streaming.map fun streaming => ("streaming", Json.bool streaming)).toList)

/-- The greeting of `handle`. -/
def greeting (caps : Capabilities) (streaming : Option Bool) (eventId protocolVersion : String) :
    Json :=
  .obj [("type", .str SESSION_CREATED), ("event_id", .str eventId),
    ("protocol_version", .str protocolVersion),
    ("session", sessionConfigToIe115 ⟨IE115_PCM_RATE, .null, .null, .null, []⟩ caps.models.head?
      streaming caps.keywords)]

end Server

/-! ## What is read of the client's frame -/

open Myna.Keywords (KEYWORDS_MAX_ENTRIES KEYWORDS_MAX_ENTRY_CHARS)

variable {intText : String → Option ℤ}

theorem takesKeywords_greeting (caps : Server.Capabilities) (streaming : Option Bool)
    (eventId protocolVersion : String) :
    Client.takesKeywords (Server.greeting caps streaming eventId protocolVersion) =
      caps.keywords := by
  obtain ⟨models, keywords⟩ := caps
  cases models <;> cases keywords <;> rfl

theorem or_ofOption (text : Option String) :
    Server.or (.ofOption text) .null = .ofOption (text.filter fun text => text ≠ "") := by
  cases text with
  | none => rfl
  | some text =>
    by_cases hempty : text = ""
    · subst hempty
      rfl
    · show (if decide (text ≠ "") = true then Json.str text else .null) = _
      rw [if_pos (decide_eq_true hempty), Option.filter_some, if_pos (decide_eq_true hempty)]
      rfl

/-- What the server reads of a frame of the client: an empty prompt is none. -/
theorem parse_sessionUpdateFrame (config : Client.SessionConfig) :
    Server.parseSessionUpdate intText (Client.sessionUpdateFrame config) =
      .ok (some (⟨config.audioFormat.sampleRateHz, .ofOption config.language,
        .ofOption (config.prompt.filter fun prompt => prompt ≠ ""), .null,
        config.keywords.map .str⟩, .null)) := by
  rw [← or_ofOption]
  obtain ⟨format, language, outputLanguage, prompt, granularity, keywords⟩ := config
  -- a field is there if it is set, and the fields if one is
  cases language <;> cases prompt <;> cases keywords <;> rfl

/-! ## Keywords -/

/-- The keywords as the server strips them. -/
def stripped (keywords : List String) : List String :=
  (keywords.filter fun keyword => !keyword.isEmpty &&
    !(Myna.Keywords.Server.strip keyword).isEmpty).map Myna.Keywords.Server.strip

theorem length_strip_le (keyword : String) :
    (Myna.Keywords.Server.strip keyword).length ≤ keyword.length := by
  unfold Myna.Keywords.Server.strip
  rw [String.length_ofList, ← String.length_toList]
  exact ((List.rdropWhile_prefix _ _).sublist.trans (List.dropWhile_sublist _)).length_le

/-- The server refuses none of the client's lists. -/
theorem normalizeKeywords_client (entries : List String) :
    Myna.Keywords.Server.normalizeKeywords (Myna.Keywords.Client.normalizeKeywords entries) =
      .ok (stripped (Myna.Keywords.Client.normalizeKeywords entries)) := by
  set keywords := Myna.Keywords.Client.normalizeKeywords entries with hkeywords
  have hcount : (stripped keywords).length ≤ KEYWORDS_MAX_ENTRIES := by
    unfold stripped
    rw [List.length_map]
    exact (List.length_filter_le _ _).trans
      (Myna.Keywords.Client.length_normalizeKeywords entries)
  have hshort : (stripped keywords).find?
      (fun entry => KEYWORDS_MAX_ENTRY_CHARS < entry.length) = none := by
    rw [List.find?_eq_none]
    intro entry hentry
    obtain ⟨keyword, hkeyword, rfl⟩ := List.mem_map.mp hentry
    obtain ⟨source, -, -, heq⟩ :=
      Myna.Keywords.Client.mem_normalizeKeywords.mp (List.mem_filter.mp hkeyword).1
    have hcapped := Myna.Keywords.Client.length_capped source
    rw [heq] at hcapped
    have hstrip := length_strip_le keyword
    rw [decide_eq_true_eq, not_lt]
    exact hstrip.trans hcapped
  unfold stripped at hcount hshort ⊢
  simp only [Myna.Keywords.Server.normalizeKeywords]
  rw [if_neg (not_lt.mpr hcount), hshort]

theorem entryTexts_str (keywords : List String) :
    Server.entryTexts (keywords.map .str) = .ok keywords := by
  induction keywords with
  | nil => rfl
  | cons keyword keywords ih =>
    show (Server.entryTexts (keywords.map .str)).map (keyword :: ·) = _
    rw [ih]
    rfl

/-- A configuration whose keywords the server takes is admitted. -/
theorem handleIe115_sent (caps : Server.Capabilities) (config : Client.SessionConfig)
    {keywords : List String}
    (htaken : Myna.Keywords.Server.normalizeKeywords config.keywords = .ok keywords)
    (hsupported : keywords ≠ [] → caps.keywords = true) :
    Server.handleIe115 intText caps (Client.sessionUpdateFrame config) = .session
      ⟨config.audioFormat.sampleRateHz, .ofOption config.language,
        .ofOption (config.prompt.filter fun prompt => prompt ≠ ""), .null, keywords.map .str⟩
      caps.models.head? := by
  have hnot : (!keywords.isEmpty && !caps.keywords) = false := by
    cases keywords with
    | nil => rfl
    | cons keyword keywords => rw [hsupported (List.cons_ne_nil _ _), Bool.not_true, Bool.and_false]
  unfold Server.handleIe115
  rw [parse_sessionUpdateFrame]
  dsimp only
  rw [show Server.unavailable caps .null = false from rfl, if_neg Bool.false_ne_true]
  unfold Server.admitKeywords
  dsimp only
  rw [entryTexts_str]
  dsimp only
  rw [htaken]
  dsimp only
  rw [hnot, if_neg Bool.false_ne_true]

/-- What a greeting leaves of the configuration. -/
def sent (greeting : Option Json) (config : Client.SessionConfig) : Client.SessionConfig :=
  if greeting.any Client.takesKeywords then config else { config with keywords := [] }

theorem openSession_eq (config : Client.SessionConfig) (greeting : Option Json) :
    Client.openSession Client.DEFAULT_WS_PATH greeting config =
      (sent greeting config, some (Client.sessionUpdateFrame (sent greeting config))) := by
  obtain ⟨format, language, outputLanguage, prompt, granularity, keywords⟩ := config
  unfold Client.openSession sent
  cases greeting.any Client.takesKeywords <;> cases keywords <;> simp

end SessionWire

end Myna

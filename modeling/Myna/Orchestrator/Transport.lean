import Myna.Core.AudioWire
import Myna.Core.Ie115Decode

/-!
# Myna — the session pump (`myna_orchestrator::backend::transport::pump`)

One task owns the connection. It takes the items of a bounded queue one at a time and writes each
while it goes on reading, and sends what it decodes to a bounded channel, where it waits for room
before it reads on. The session is aborted past the queue.

* **`Dialect`**, **`internal`**, **`ie115`** — how a session is framed;
* **`Session`** — the pump, its channels and its peer;
* **`Step`** — one arm of the pump's `select!`, or one step of anything around it.
-/

namespace Myna

namespace Transport

open Myna.Client (TranscriptionEvent WireError fromWire decodeFrame)
open Myna.SessionWire (Outbound Message)

/-! ## Dialects -/

inductive BackendError
  | wire (error : WireError)
  | transport (message : String)
deriving DecidableEq

/-- `Dialect`. Neither of the two changes when it encodes or decodes. -/
structure Dialect (δ : Type*) where
  encode : δ → Outbound → Message
  written : δ → Bool → δ
  decode : δ → String → Except BackendError (List TranscriptionEvent)

section

-- `serde_json::from_str`
variable (fromStr : String → Except String Json)

def readJson (text : String) : Except BackendError Json :=
  match fromStr text with
  | .ok value => .ok value
  | .error e => .error (.transport ("bad JSON: " ++ e))

def decodeEvent (value : Json) : Except BackendError (List TranscriptionEvent) :=
  if (value.get? "event").isSome then
    match fromWire value with
    | .ok event => .ok event.toList
    | .error e => .error (.wire e)
  else .ok []

/-- `Internal`. -/
def internal : Dialect Unit where
  encode _
    | .audio chunk => .binary chunk.data
    | .finish => .text (.obj [("type", .str "session.finish")])
  written _ _ := ()
  decode _ text := (readJson fromStr text).bind decodeEvent

/-- What the framing of IE115 remembers. -/
structure Ie115 where
  base64Audio : Bool
  afterCommit : Bool := false
deriving DecidableEq

/-- `Ie115`. -/
def ie115 : Dialect Ie115 where
  encode d := Outbound.encode d.base64Audio
  written d finish := { d with afterCommit := d.afterCommit || finish }
  decode d text := (readJson fromStr text).map fun value => decodeFrame value d.afterCommit

end

/-! ## The pump -/

def isFinish : Outbound → Bool
  | .finish => true
  | .audio _ => false

/-- An item that is being written, and what has come of it. -/
structure Write where
  item : Outbound
  message : Message
  sent : Option (Except String Unit) := none

/-- What the peer sends, as the stream has it. The end of the stream is a close. -/
inductive Incoming
  | text (text : String)
  | binary
  | control
  | close
  | failed (error : String)
deriving DecidableEq

/-- What the peer sent, once it had received `seen` frames of ours. -/
structure Arrival where
  seen : ℕ
  incoming : Incoming
deriving DecidableEq

abbrev Result := Except BackendError TranscriptionEvent

/-- The session is over once the pump has sent it. -/
def ends : Result → Bool
  | .ok event => event.isTerminal
  | .error _ => true

/-- `WRITE_GRACE`, in milliseconds. -/
def WRITE_GRACE : ℕ := 2000

structure Session (δ : Type*) where
  dialect : δ
  idle : Bool := true
  writing : Option Write := none
  outboundOpen : Bool := true
  /-- The error of the write that failed, and when its grace is over. -/
  failed : Option (String × ℕ) := none
  /-- What has been decoded and is still to be sent. -/
  sending : List Result := []
  /-- How many data frames have marked activity. -/
  activity : ℕ := 0
  ended : Bool := false
  -- around the pump
  /-- The events have an owner. -/
  owned : Bool := true
  queue : List Outbound := []
  sinks : Bool := true
  abort : Bool := false
  now : ℕ := 0
  incoming : List Arrival := []
  events : List Result := []
  -- what has happened
  /-- The items that have been put into the queue. -/
  accepted : List Outbound := []
  /-- The frames that are on the socket as a whole. -/
  wire : List Message := []
  /-- All that the peer has sent. -/
  arrived : List Arrival := []
  /-- The frames that have been read, each with the dialect it was decoded by. -/
  read : List (Arrival × δ) := []
  /-- The error of a write whose grace is over. -/
  expired : Option String := none
  /-- What the owner of the events has been given. -/
  heard : List Result := []

variable {δ : Type*}

/-- What comes of a frame that `d` decodes. -/
def results (D : Dialect δ) (d : δ) : Incoming → List Result
  | .text text =>
    match D.decode d text with
    | .ok decoded => decoded.map .ok
    | .error e => [.error e]
  | .failed error => [.error (.transport error)]
  | _ => []

namespace Session

variable (D : Dialect δ) (s : Session δ)

/-- A write has come to its end, and the pump has not seen it yet. -/
def written? : Bool := (s.writing.bind Write.sent).isSome

/-- What comes of a write: a frame that the socket has taken is on the wire. -/
def flush (w : Write) : Except String Unit → Session δ
  | .ok () =>
    { s with writing := some { w with sent := some (.ok ()) }, wire := s.wire ++ [w.message] }
  | .error e => { s with writing := some { w with sent := some (.error e) } }

/-- The arm of the write. -/
def writeOver (w : Write) : Except String Unit → Session δ
  | .ok () =>
    { s with writing := none, dialect := D.written s.dialect (isFinish w.item), idle := true }
  | .error e => { s with writing := none, failed := some (e, s.now + WRITE_GRACE) }

/-- The arm of the grace. -/
def outOfGrace (error : String) : Session δ :=
  { s with failed := none, expired := some error, sending := [.error (.transport error)] }

/-- The arm of the queue. -/
def take (item : Outbound) (rest : List Outbound) : Session δ :=
  { s with
    queue := rest
    idle := false
    writing := some { item, message := D.encode s.dialect item } }

def isData : Incoming → Bool
  | .text _ => true
  | .binary => true
  | _ => false

/-- The arm of the stream. -/
def readNext (frame : Arrival) (rest : List Arrival) : Session δ :=
  { s with
    incoming := rest
    read := s.read ++ [(frame, s.dialect)]
    activity := if isData frame.incoming then s.activity + 1 else s.activity
    sending := results D s.dialect frame.incoming
    ended := decide (frame.incoming = .close) }

/-- One result is sent, and ends the session or does not. -/
def send (r : Result) (rest : List Result) : Session δ :=
  { s with
    events := s.events ++ [r]
    sending := if ends r then [] else rest
    ended := ends r }

end Session

/-! ## Steps -/

/-- What does a step: an arm of the pump, or something around it. -/
inductive Act
  | aborted | written | outOfGrace | queue | closed | read | send
  | reserve | dropSinks | abort | arrive | elapse | flush | next | hangUp
deriving DecidableEq

/-- One step. Another arm may become ready while the arms are polled in turn, so that of their
order only what the pump itself decides is here: it sees that a write is over before it reads. -/
inductive Step (D : Dialect δ) (outboundCapacity eventCapacity : ℕ) :
    Act → Session δ → Session δ → Prop
  | aborted {s} (hover : s.ended = false) (hsending : s.sending = []) (h : s.abort = true) :
    Step D outboundCapacity eventCapacity .aborted s { s with ended := true }
  | written {s w sent} (hover : s.ended = false) (hsending : s.sending = [])
    (h : s.writing = some w) (hsent : w.sent = some sent) :
    Step D outboundCapacity eventCapacity .written s (s.writeOver D w sent)
  | outOfGrace {s error due} (hover : s.ended = false) (hsending : s.sending = [])
    (h : s.failed = some (error, due)) (hdue : due ≤ s.now) :
    Step D outboundCapacity eventCapacity .outOfGrace s (s.outOfGrace error)
  | queue {s item rest} (hover : s.ended = false) (hsending : s.sending = [])
    (hopen : s.outboundOpen = true) (hidle : s.idle = true) (h : s.queue = item :: rest) :
    Step D outboundCapacity eventCapacity .queue s (s.take D item rest)
  | closed {s} (hover : s.ended = false) (hsending : s.sending = [])
    (hopen : s.outboundOpen = true) (hidle : s.idle = true) (h : s.queue = [])
    (hsinks : s.sinks = false) :
    Step D outboundCapacity eventCapacity .closed s { s with outboundOpen := false }
  | read {s frame rest} (hover : s.ended = false) (hsending : s.sending = [])
    (hwritten : s.written? = false) (h : s.incoming = frame :: rest) :
    Step D outboundCapacity eventCapacity .read s (s.readNext D frame rest)
  | send {s r rest} (hover : s.ended = false) (h : s.sending = r :: rest)
    (hroom : s.events.length < eventCapacity) :
    Step D outboundCapacity eventCapacity .send s (s.send r rest)
  | reserve {s} (item : Outbound) (hover : s.ended = false) (hsinks : s.sinks = true)
    (hroom : s.queue.length < outboundCapacity) :
    Step D outboundCapacity eventCapacity .reserve s
      { s with queue := s.queue ++ [item], accepted := s.accepted ++ [item] }
  | dropSinks {s} : Step D outboundCapacity eventCapacity .dropSinks s { s with sinks := false }
  | abort {s} (hsinks : s.sinks = true) :
    Step D outboundCapacity eventCapacity .abort s { s with abort := true }
  | arrive {s} (seen : ℕ) (incoming : Incoming) (hseen : seen ≤ s.wire.length) :
    Step D outboundCapacity eventCapacity .arrive s
      { s with
        incoming := s.incoming ++ [⟨seen, incoming⟩]
        arrived := s.arrived ++ [⟨seen, incoming⟩] }
  | elapse {s} (d : ℕ) :
    Step D outboundCapacity eventCapacity .elapse s { s with now := s.now + d }
  | flush {s w} (sent : Except String Unit) (hover : s.ended = false) (h : s.writing = some w)
    (hsent : w.sent = none) :
    Step D outboundCapacity eventCapacity .flush s (s.flush w sent)
  | next {s r rest} (h : s.events = r :: rest) :
    Step D outboundCapacity eventCapacity .next s
      { s with events := rest, heard := s.heard ++ [r] }
  | hangUp {s} : Step D outboundCapacity eventCapacity .hangUp s
      { s with owned := false, ended := true, events := [] }

end Transport

end Myna

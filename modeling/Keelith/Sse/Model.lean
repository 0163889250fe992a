import Keelith.Lib.Bytes
import Keelith.Lib.Time

/-!
# Server-sent events

`Render` of `transport/sse/sse.go` writes an event as lines of the form `field: value` and a blank
line. `consumeProtoSSE` of `transport/http/sse_client.go` reads such a stream line by line.

- **Stream**: the bytes of the response body up to its end; a cut connection that the client sees as
  a clean end of stream is a shorter stream. The context of the call stays alive, so every message
  is taken.
- **Lines**: `bufio.Scanner` with `ScanLines`. A line ends at a line feed or at the end of the
  stream, and a trailing carriage return is dropped. A line that does not fit the buffer ends the
  loop with `ErrTooLong`.
- **Messages**: the factory and `UnmarshalProtoResponseBody` are one parameter, a function of the
  payload.
- **Frames**: the server writes events and heartbeat comments, each one as a whole.
-/

namespace Keelith.Sse

open Bytes

/-- The line feed. -/
def lf : UInt8 := '\n'.toUInt8

/-- The carriage return. -/
def cr : UInt8 := '\r'.toUInt8

/-- The byte after the name of a field. -/
def colon : UInt8 := ':'.toUInt8

/-- The blank before a value. -/
def space : UInt8 := ' '.toUInt8

/-- `Event`. -/
structure Event where
  id : Bytes
  name : Bytes
  data : Bytes
  retry : Duration

def minimumRetry : Duration := 100 * millisecond

def maximumRetry : Duration := hour

def maxIdentityBytes : Nat := 256

def validID (value : Bytes) : Bool :=
  value.length ≤ maxIdentityBytes && utf8Valid value && !containsAny value [cr, lf, 0]

/-- A character of the name of an event. -/
def nameByte (r : UInt8) : Bool :=
  ('a'.toUInt8 ≤ r && r ≤ 'z'.toUInt8) || ('A'.toUInt8 ≤ r && r ≤ 'Z'.toUInt8) ||
    ('0'.toUInt8 ≤ r && r ≤ '9'.toUInt8) || r == '.'.toUInt8 || r == '_'.toUInt8 || r == '-'.toUInt8

/-- `validName`: a byte that is not ASCII belongs to a character outside of the list. -/
def validName (value : Bytes) : Bool := value.length ≤ maxIdentityBytes && value.all nameByte

/-! ## Rendering -/

/-- `ErrInvalid` and `ErrEventTooLarge`. -/
inductive RenderError where
  | invalid
  | eventTooLarge
  deriving DecidableEq

/-- `strings.ReplaceAll(s, "\r\n", "\n")`. -/
def replaceCrLf : Bytes → Bytes
  | [] => []
  | b :: rest => if b = cr ∧ rest.head? = some lf then replaceCrLf rest else b :: replaceCrLf rest

/-- `strings.ReplaceAll(s, "\r", "\n")`. -/
def replaceCr (s : Bytes) : Bytes := s.map fun b => if b = cr then lf else b

/-- The data with line feeds only. -/
def Event.text (event : Event) : Bytes := replaceCr (replaceCrLf event.data)

/-- The lines of the data. -/
def Event.lines (event : Event) : List Bytes := split lf event.text

/-- A field and its value, without the line feed. -/
def fieldLine (field value : Bytes) : Bytes := field ++ colon :: space :: value

/-- The lines of `id`, `event` and `retry`, for those that are set. -/
def Event.header (event : Event) : List Bytes :=
  (if event.id = [] then [] else [fieldLine (ascii "id".toList) event.id]) ++
    (if event.name = [] then [] else [fieldLine (ascii "event".toList) event.name]) ++
    if event.retry = 0 then []
    else [fieldLine (ascii "retry".toList) (formatNat (event.retry / millisecond).toNat)]

/-- Lines as they are written. -/
def written (lines : List Bytes) : Bytes := lines.flatMap (· ++ [lf])

/-- A line of data. -/
def dataLine (line : Bytes) : Bytes := fieldLine (ascii "data".toList) line

/-- The loop over the lines of the data. -/
def renderData (maximum : Nat) (payload : Bytes) : List Bytes → Except RenderError Bytes
  | [] => .ok payload
  | line :: lines =>
    if maximum < (payload ++ written [dataLine line]).length then .error .eventTooLarge
    else renderData maximum (payload ++ written [dataLine line]) lines

/-- The delay is absent, or within the bounds and a number of milliseconds. -/
def validRetry (retry : Duration) : Bool :=
  retry == 0 || (minimumRetry ≤ retry && retry ≤ maximumRetry && retry % millisecond == 0)

def render (maximum : Nat) (event : Event) : Except RenderError Bytes :=
  if maximum < 1 || !validID event.id || !validName event.name || !utf8Valid event.data ||
    event.data.contains 0 ||
      !validRetry event.retry then .error .invalid
  else do
    let payload ← renderData maximum (written event.header) event.lines
    if maximum < (payload ++ [lf]).length then .error .eventTooLarge else .ok (payload ++ [lf])

/-- What the encoder of the server writes at once. -/
inductive Frame where
  | event (event : Event)
  | heartbeat

/-- `HeartbeatComment` without its line feeds. -/
def keepalive : Bytes := ascii ": keelith-keepalive".toList

/-- The bytes of a frame. -/
def Frame.render (maximum : Nat) : Frame → Except RenderError Bytes
  | .event e => Sse.render maximum e
  | .heartbeat => .ok (written [keepalive, []])

/-! ## Reading -/

/-- `SSEMessage`. -/
structure Message (α : Type) where
  id : Bytes
  name : Bytes
  value : α
  retry : Duration
  deriving DecidableEq

/-- The errors of `consumeProtoSSE`: `ErrInvalidSSE` with and without the text of the decoder, and
`ErrResponseTooLarge`. -/
inductive ReadError where
  | invalid
  | decode
  | responseTooLarge
  deriving DecidableEq

/-- The arguments of `consumeProtoSSE`. -/
structure Client (α : Type) where
  decode : Bytes → Option α
  maxEventBytes : Nat

/-- The variables of `consumeProtoSSE`, and the messages that it has sent. -/
structure State (α : Type) where
  lastID : Bytes
  eventName : Bytes
  retry : Duration
  data : Bytes
  eventBytes : Nat
  sent : List (Message α)

variable {α : Type}

/-- The variables at the start. -/
def State.start : State α := ⟨[], [], 0, [], 0, []⟩

/-- `strings.TrimSuffix(s, "\n")`. -/
def trimLf (s : Bytes) : Bytes := if s.getLast? = some lf then s.dropLast else s

/-- `dropCR` of `bufio.ScanLines`. -/
def dropCR (line : Bytes) : Bytes := if line.getLast? = some cr then line.dropLast else line

section Reading

variable (c : Client α)

def dispatch (st : State α) : State α × Option ReadError :=
  if st.data = [] then ({ st with eventName := [], eventBytes := 0 }, none)
  else
    match c.decode (trimLf st.data) with
    | none => (st, some .decode)
    | some value =>
      ({ st with
          data := [], eventName := [], eventBytes := 0
          sent := st.sent ++ [⟨st.lastID, st.eventName, value, st.retry⟩] }, none)

/-- The delay of a `retry` field; the product of an `int64` wraps around. -/
def parseRetry (value : Bytes) : Option Duration := do
  let milliseconds ← parseInt value
  let candidate := (milliseconds * millisecond).bmod (2 ^ 64)
  if minimumRetry ≤ candidate ∧ candidate ≤ maximumRetry then some candidate else none

/-- The cases of a field. -/
def applyField (st : State α) (field value : Bytes) : State α × Option ReadError :=
  if field = ascii "data".toList then ({ st with data := st.data ++ value ++ [lf] }, none)
  else if field = ascii "event".toList then
    if validName value then ({ st with eventName := value }, none) else (st, some .invalid)
  else if field = ascii "id".toList then
    if validID value then ({ st with lastID := value }, none) else (st, some .invalid)
  else if field = ascii "retry".toList then
    ({ st with retry := (parseRetry value).getD st.retry }, none)
  else (st, none)

/-- `strings.Cut(line, ":")`, without one blank before the value. -/
def fieldValue (line : Bytes) : Bytes × Bytes :=
  match cut colon line with
  | none => (line, [])
  | some (field, value) => (field, if value.head? = some space then value.tail else value)

/-- The size of the buffer of the scanner. -/
@[irreducible] def maxTokenSize : Nat := max 4096 (c.maxEventBytes + 512)

/-- The body of the loop, for a line of the scanner. -/
def readLine (st : State α) (token : Bytes) : State α × Option ReadError :=
  if maxTokenSize c ≤ token.length then (st, some .responseTooLarge)
  else
    let line := dropCR token
    if !utf8Valid line then (st, some .invalid)
    else
      let st := { st with eventBytes := st.eventBytes + (line.length + 1) }
      if c.maxEventBytes < st.eventBytes then (st, some .responseTooLarge)
      else if line = [] then dispatch c st
      else if line.head? = some colon then (st, none)
      else applyField st (fieldValue line).1 (fieldValue line).2

/-- The loop, up to its first error. -/
def readLines (st : State α) : List Bytes → State α × Option ReadError
  | [] => (st, none)
  | line :: lines =>
    match readLine c st line with
    | (st, some err) => (st, some err)
    | (st, none) => readLines st lines

/-- The lines of a stream: the last one may lack its line feed. -/
def scanLines (stream : Bytes) : List Bytes :=
  let parts := split lf stream
  if parts.getLast? = some [] then parts.dropLast else parts

/-- The end of `consumeProtoSSE`, after the loop. -/
def finish : State α × Option ReadError → State α × Option ReadError
  | (st, some err) => (st, some err)
  | (st, none) => if st.data ≠ [] then dispatch c st else (st, none)

def consumeProtoSSE (stream : Bytes) : State α × Option ReadError :=
  finish c (readLines c .start (scanLines stream))

end Reading

end Keelith.Sse

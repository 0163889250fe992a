import Keelith.Lib.Decimal
import Keelith.Projection.Model

/-!
# The owner of a projection

`programmable/projection/ownermemory` (`source.go`, `admin.go`): the current rows, the retained log
of deltas, and the sessions that read them.

- **Sessions**: a Go `*session` is the index of its session in `Source.sessions`, which only grows.
  The set `subscribers` is the flag `subscribed` of a session. A session is done when `runErr` is
  set: `terminate` sets both once.
- **Locks**: `Seed`, `Replace`, `Commit`, `Open` and `CompactProjection` hold the lock of the source
  throughout, so a call is one step. `session.Close` and `Source.Close` unsubscribe under the lock
  and terminate after it, so these are two steps (`unsubscribe` or `close`, then `terminate`).
- **Next** (`Session.next`): `Pick` says which of its ready cases a call takes. A session can be
  terminated after the first `select` of a call, so the frames that are left can still be returned.

A method that can fail returns its result beside the state it leaves.
-/

namespace Keelith.Projection.Owner

/-! ## Cursors -/

def cursorPrefix : String := "memory/"

def cursorDigits : Nat := 20

def encodeCursor (offset : UInt64) : Cursor :=
  String.ofList (cursorPrefix.toList ++ decimal cursorDigits offset.toNat)

/-- `decodeCursor`; every failure is `ErrInvalidOwnerCursor`. -/
def decodeCursor (cursor : Cursor) : Option UInt64 :=
  if cursor.utf8ByteSize != cursorPrefix.utf8ByteSize + cursorDigits ||
      cursor.toList.take cursorPrefix.toList.length != cursorPrefix.toList then none
  else
    match parseDecimal (cursor.toList.drop cursorPrefix.toList.length) with
    | none => none
    | some value =>
      -- `ParseUint` fails out of range.
      if value < 2 ^ 64 && encodeCursor (UInt64.ofNat value) == cursor then
        some (UInt64.ofNat value)
      else none

/-! ## State -/

def maxChunkBudget : Nat := 32 * 1024 * 1024

def maxLiveQueueBudget : Nat := 64

/-- `logEntry`. -/
structure LogEntry where
  offset : UInt64
  batch : DeltaBatch
  deriving DecidableEq

/-- `session`. -/
structure Session where
  initial : List Frame
  index : Nat := 0
  runErr : Option Error := none
  live : List Frame := []
  protectedAt : UInt64
  subscribed : Bool
  deriving DecidableEq

/-- `Source`. -/
structure Source where
  schema : Schema
  retention : Nat
  chunkBudget : Nat
  queueBudget : Nat
  rows : Rows := ∅
  offset : UInt64 := 0
  sourceTime : Time := Time.zero
  log : List LogEntry := []
  sessions : List Session := []
  closed : Bool := false
  deriving DecidableEq

/-- `New`. -/
def newSource (schema : Schema) (retention chunkBudget : Int) : Except Error Source :=
  match schema.validate with
  | .error err => .error err
  | .ok () =>
    if retention ≤ 0 || retention > 100000 || chunkBudget ≤ 0 || chunkBudget > maxChunkBudget then
      .error (.wrapped .errInvalidOption "retention or chunk budget")
    else
      .ok { schema, retention := retention.toNat, chunkBudget := chunkBudget.toNat,
            queueBudget := min retention.toNat maxLiveQueueBudget }

/-! ## Sessions -/

namespace Session

def terminate (session : Session) (err : Error) : Session :=
  { session with runErr := some (session.runErr.getD err) }

/-- One subscriber of the publication loop of `commitLocked`: a full queue ends the session. -/
def publish (queueBudget : Nat) (frame : Frame) (session : Session) : Session :=
  if !session.subscribed then session
  else if session.live.length < queueBudget then { session with live := session.live ++ [frame] }
  else { session with subscribed := false }.terminate (.sentinel .errSlowSubscriber)

/-- The frames that `Next` has not returned yet. -/
def pending (session : Session) : List Frame := session.initial.drop session.index ++ session.live

end Session

/-- The case that a call of `Next` takes. -/
inductive Pick where
  | done
  | initial
  | live
  | canceled (cause : Error)
  deriving DecidableEq

/-- `session.Next`, with the case it takes; `none` if that case is not ready. -/
def Session.next (session : Session) : Pick → Option (Except Error Frame × Session)
  | .done =>
    match session.runErr with
    | none => none
    | some err => some (.error err, session)
  | .initial =>
    match session.initial[session.index]? with
    | none => none
    | some frame => some (.ok frame, { session with index := session.index + 1 })
  | .live =>
    if session.index < session.initial.length then none
    else match session.live with
      | [] => none
      | frame :: rest => some (.ok frame, { session with live := rest })
  | .canceled cause => some (.error cause, session)

namespace Source

/-! ## Commits -/

/-- The loop of `validateMutations` from `index` on. -/
def validateFrom (chunkBudget index : Nat) : List Mutation → Except Error Unit
  | [] => .ok ()
  | mutation :: rest =>
    match mutation.validate with
    | .error err => .error (.chained .errInvalidOption s!"mutation {index}" err)
    | .ok () =>
      if mutation.kind == .upsert && mutation.bytes > chunkBudget then
        .error (.wrapped .errInvalidOption s!"mutation {index} exceeds chunk budget")
      else validateFrom chunkBudget (index + 1) rest

def validateMutations (source : Source) (mutations : List Mutation) : Except Error Unit :=
  if mutations.isEmpty then .error (.wrapped .errInvalidOption "no mutations")
  else validateFrom source.chunkBudget 0 mutations

/-- The batch that `commitLocked` builds. -/
def batch (source : Source) (mutations : List Mutation) (sourceTime : Time) : DeltaBatch :=
  { schema := source.schema, previous := encodeCursor source.offset,
    cursor := encodeCursor (source.offset + 1), sourceTime, mutations }

/-- The log keeps the last `retention` entries. -/
def retain (retention : Nat) (log : List LogEntry) : List LogEntry :=
  if log.length > retention then log.drop (log.length - retention) else log

/-- The source after a committed batch. -/
def committed (source : Source) (mutations : List Mutation) (sourceTime : Time) : Source :=
  { source with
    rows := applyMutations source.rows mutations
    offset := source.offset + 1
    sourceTime
    log := retain source.retention
      (source.log ++ [⟨source.offset + 1, source.batch mutations sourceTime⟩])
    sessions := source.sessions.map
      (Session.publish source.queueBudget (.delta (source.batch mutations sourceTime))) }

def commitLocked (source : Source) (mutations : List Mutation) (sourceTime : Time) :
    Except Error Cursor × Source :=
  if sourceTime.isZero || (!source.sourceTime.isZero && sourceTime < source.sourceTime) then
    (.error (.wrapped .errInvalidOption "source time"), source)
  else if source.offset == maxUint64 then
    (.error (.wrapped .errInvalidOwnerCursor "cursor exhausted"), source)
  else match (source.batch mutations sourceTime).validate with
    | .error err => (.error err, source)
    | .ok () => (.ok (encodeCursor (source.offset + 1)), source.committed mutations sourceTime)

def seed (source : Source) (mutations : List Mutation) (sourceTime : Time) :
    Except Error Cursor × Source :=
  match source.validateMutations mutations with
  | .error err => (.error err, source)
  | .ok () =>
    if source.closed then (.error (.sentinel .errSourceClosed), source)
    else if source.offset != 0 then (.error (.sentinel .errAlreadySeeded), source)
    else source.commitLocked mutations sourceTime

def commit (source : Source) (mutations : List Mutation) (sourceTime : Time) :
    Except Error Cursor × Source :=
  match source.validateMutations mutations with
  | .error err => (.error err, source)
  | .ok () =>
    if source.closed then (.error (.sentinel .errSourceClosed), source)
    else if source.offset == 0 then (.error (.sentinel .errNotSeeded), source)
    else source.commitLocked mutations sourceTime

/-- One key of `diffRows`. -/
def diffKey (current desired : Rows) (key : List UInt8) : Option Mutation :=
  match current.lookup key, desired.lookup key with
  | some _, none => some (delete key)
  | none, some after => some (upsert key after)
  | some before, some after => if before == after then none else some (upsert key after)
  | none, none => none

def diffRows (current desired : Rows) : List Mutation :=
  ((current.keys ∪ desired.keys).sort (· ≤ ·)).filterMap (diffKey current desired)

def replace (source : Source) (rows : List Mutation) (sourceTime : Time) :
    Except Error Cursor × Source :=
  match source.validateMutations rows with
  | .error err => (.error err, source)
  | .ok () =>
    let desired := applyMutations ∅ rows
    if source.closed then (.error (.sentinel .errSourceClosed), source)
    else if source.offset == 0 then source.commitLocked rows sourceTime
    else
      let changes := diffRows source.rows desired
      if changes.isEmpty then (.ok (encodeCursor source.offset), source)
      else source.commitLocked changes sourceTime

/-! ## Sessions -/

/-- The rows in the order of their keys, as upserts. -/
def rowMutations (rows : Rows) : List Mutation :=
  (rows.keys.sort (· ≤ ·)).map fun key => upsert key ((rows.lookup key).getD [])

/-- The chunk loop of `snapshotFramesLocked`, with the open chunk and its bytes. -/
def chunks (chunkBudget : Nat) : List Mutation → Nat → List Mutation → List (List Mutation)
  | chunk, _, [] => if chunk.isEmpty then [] else [chunk]
  | chunk, chunkBytes, row :: rest =>
    if !chunk.isEmpty && chunkBytes + row.bytes > chunkBudget then
      chunk :: chunks chunkBudget [row] row.bytes rest
    else chunks chunkBudget (chunk ++ [row]) (chunkBytes + row.bytes) rest

/-- `snapshotFramesLocked`. -/
def snapshotFrames (source : Source) : List Frame :=
  .snapshotBegin source.schema ::
    (chunks source.chunkBudget [] 0 (rowMutations source.rows)).map .snapshotChunk ++
    [.snapshotEnd (encodeCursor source.offset) source.sourceTime]

/-- `retentionFloorLocked`. -/
def retentionFloor (source : Source) : UInt64 :=
  match source.log with
  | [] => source.offset
  | entry :: _ => entry.offset - 1

/-- The deltas that a resumed session replays. -/
def replay (source : Source) (after : UInt64) : List Frame :=
  (source.log.filter fun entry => entry.offset > after).map fun entry => .delta entry.batch

/-- The session that `Open` creates once the request is accepted. -/
def openSession (source : Source) (request : SubscribeRequest) : Except Error Session :=
  if request.forceSnapshot then
    .ok { initial := source.snapshotFrames, protectedAt := source.offset, subscribed := true }
  else match decodeCursor request.after with
    | none => .error (.wrapped .errInvalidOwnerCursor request.after)
    | some after =>
      if after > source.offset then .error (.wrapped .errInvalidOwnerCursor request.after)
      else if after < source.retentionFloor then
        .ok { initial := [.gap request.after (encodeCursor source.retentionFloor)],
              protectedAt := after, subscribed := false }
      else .ok { initial := source.replay after, protectedAt := after, subscribed := true }

/-- `Source.Open`: the index of the new session. -/
def «open» (source : Source) (ctx : Context) (request : SubscribeRequest) :
    Except Error Nat × Source :=
  match ctx.cause with
  | some cause => (.error cause, source)
  | none =>
    match request.validate with
    | .error err => (.error err, source)
    | .ok () =>
      match request.schema.accepts source.schema with
      | .error err => (.error err, source)
      | .ok () =>
        if source.closed then (.error (.sentinel .errSourceClosed), source)
        else if source.offset == 0 then (.error (.sentinel .errNotSeeded), source)
        else match source.openSession request with
          | .error err => (.error err, source)
          | .ok created =>
            (.ok source.sessions.length, { source with sessions := source.sessions ++ [created] })

/-- The source with one session changed. -/
def modifySession (source : Source) (session : Nat) (f : Session → Session) : Source :=
  { source with sessions := source.sessions.modify session f }

/-- `session.Close`, the part under the lock. -/
def unsubscribe (source : Source) (session : Nat) : Source :=
  source.modifySession session fun session => { session with subscribed := false }

/-- `Source.Close`, the part under the lock. -/
def close (source : Source) : Source :=
  { source with
    closed := true
    sessions := source.sessions.map fun session => { session with subscribed := false } }

/-- `terminate` of a session by `session.Close` or `Source.Close`. -/
def terminate (source : Source) (session : Nat) (err : Error) : Source :=
  source.modifySession session fun session => session.terminate err

/-! ## Compaction -/

/-- `CompactRequest`. -/
structure CompactRequest where
  shard : String
  before : Cursor
  maxEntries : Int
  deriving DecidableEq

/-- `CompactResult`. -/
structure CompactResult where
  shard : String
  previousFloor : Cursor
  floor : Cursor
  protectedAt : Cursor
  deletedEntries : Nat
  deriving DecidableEq

def defaultShard : String := "default"

def maxShardIDBytes : Nat := 128

/-- `CompactRequest.Validate` accepts. -/
def CompactRequest.valid (r : CompactRequest) : Bool :=
  validIdentity r.shard maxShardIDBytes && validIdentity r.before maxCursorBytes &&
    0 < r.maxEntries && r.maxEntries ≤ 100000

/-- `protectedOffsetLocked`. -/
def protectedOffset (source : Source) : UInt64 :=
  source.sessions.foldl
    (fun lowest session =>
      if session.subscribed && session.protectedAt < lowest then session.protectedAt else lowest)
    source.offset

/-- How many entries the loop of `CompactProjection` deletes. -/
def deletable (source : Source) (target : UInt64) (maxEntries : Nat) : Nat :=
  min maxEntries (source.log.takeWhile fun entry => entry.offset ≤ target).length

def compactProjection (source : Source) (ctx : Context) (request : CompactRequest) :
    Except Error CompactResult × Source :=
  if !request.valid || request.shard != defaultShard then
    (.error (.sentinel .errInvalidAdmin), source)
  else match ctx.cause with
    | some cause => (.error cause, source)
    | none =>
      match decodeCursor request.before with
      | none => (.error (.sentinel .errInvalidAdmin), source)
      | some target =>
        if source.closed then (.error (.sentinel .errSourceClosed), source)
        else if source.offset == 0 then (.error (.sentinel .errNotSeeded), source)
        else if target > source.offset then
          (.error (.wrapped .errInvalidAdmin "target is ahead of head"), source)
        else
          let lowest := source.protectedOffset
          let deleted := source.deletable (min target lowest) request.maxEntries.toNat
          let compacted := { source with log := source.log.drop deleted }
          (.ok { shard := request.shard, previousFloor := encodeCursor source.retentionFloor,
                 floor := encodeCursor compacted.retentionFloor, protectedAt := encodeCursor lowest,
                 deletedEntries := deleted },
           compacted)

end Source

/-! ## The owner as a machine -/

/-- One step of the owner's callers. -/
inductive Op where
  | seed (mutations : List Mutation) (sourceTime : Time)
  | commit (mutations : List Mutation) (sourceTime : Time)
  | replace (rows : List Mutation) (sourceTime : Time)
  | compact (ctx : Context) (request : Source.CompactRequest)
  | close
  | «open» (ctx : Context) (request : SubscribeRequest)
  | next (session : Nat) (pick : Pick)
  /-- The two parts of the end of a session: `Close` of any goroutine, a lost session. -/
  | unsubscribe (session : Nat)
  | terminate (session : Nat) (err : Error)

namespace Source

/-- `Next` on one of the sessions. -/
def next (source : Source) (session : Nat) (pick : Pick) : Source :=
  match source.sessions[session]?.bind fun current => current.next pick with
  | none => source
  | some (_, after) => source.modifySession session fun _ => after

/-- The source after a step. -/
def exec (source : Source) : Op → Source
  | .seed mutations sourceTime => (source.seed mutations sourceTime).2
  | .commit mutations sourceTime => (source.commit mutations sourceTime).2
  | .replace rows sourceTime => (source.replace rows sourceTime).2
  | .compact ctx request => (source.compactProjection ctx request).2
  | .close => source.close
  | .open ctx request => (source.open ctx request).2
  | .next session pick => source.next session pick
  | .unsubscribe session => source.unsubscribe session
  | .terminate session err => source.terminate session err

end Source

end Keelith.Projection.Owner

import Keelith.Lib.Counter
import Keelith.Lib.Map
import Keelith.Lib.Text
import Keelith.Lib.Time

/-!
# Projections: schemas, mutations, deltas and frames

The types of `programmable/projection` (`model.go`, `source.go`) and their own checks.

- **Identities** (`validIdentity`, `validFingerprint`): `ProjectionID` and `Cursor` wrap a string.
  A Go string that is not valid UTF-8 fails the first check and has no counterpart here.
- **Schemas** (`FingerprintSet`, `Schema`): the array of a fingerprint set is the list of its first
  `count` entries. Go compares strings by bytes, which for UTF-8 is the order of code points.
- **Mutations** (`Mutation`): a key or a value is a byte list; `nil` and an empty slice are one
  value. `Rows` is a Go `map[string][]byte` whose keys hold arbitrary bytes.
- **Frames** (`Frame`): the inputs of the synchronization state machine.
- **Errors** (`Error`): a sentinel, the typed errors that unwrap to one, `fmt.Errorf` with one or
  two `%w`, and an error of other code. A `%q` stands unquoted.
-/

namespace Keelith.Projection

/-! ## Errors -/

/-- The sentinel errors of the package and of its owner source. -/
inductive Sentinel where
  | errInvalidProjectionID
  | errInvalidSchema
  | errInvalidCursor
  | errInvalidMutation
  | errInvalidDelta
  | errProjectionNotFound
  | errSnapshotClosed
  | errSnapshotConflict
  | errReplayConflict
  | errInvalidSubscription
  | errInvalidFrame
  | errInvalidReplica
  | errInvalidAdmin
  | errInvalidOption
  | errNotSeeded
  | errAlreadySeeded
  | errSourceClosed
  | errSlowSubscriber
  | errInvalidOwnerCursor
  deriving DecidableEq

/-- The errors of the package (module doc). -/
inductive Error where
  /-- A sentinel. -/
  | sentinel (kind : Sentinel)
  /-- `SchemaMismatchError`. -/
  | schemaMismatch (projection field expected actual : String)
  /-- `CursorMismatchError`. -/
  | cursorMismatch (projection expected actual : String)
  /-- `StaleError`. -/
  | stale (projection cursor : String) (maximum age : Duration)
  /-- `fmt.Errorf` with `%w` of a sentinel and the text of the rest. -/
  | wrapped (kind : Sentinel) (context : String)
  /-- `fmt.Errorf` with `%w` of a sentinel and `%w` of `err`. -/
  | chained (kind : Sentinel) (context : String) (err : Error)
  /-- A cancelation cause, or an error of other code. -/
  | external (text : String)
  deriving DecidableEq

/-- A `context.Context`: the cause of its cancelation, if it is canceled. -/
structure Context where
  cause : Option Error
  deriving DecidableEq

/-! ## Identities -/

def maxProjectionIDBytes : Nat := 256

def maxCursorBytes : Nat := 512

def maxKeyBytes : Nat := 4 * 1024

def maxValueBytes : Nat := 16 * 1024 * 1024

def maxDeltaMutations : Nat := 10000

def maxDeltaBytes : Nat := 32 * 1024 * 1024

def fingerprintBytes : Nat := 64

def maxCompatibleSchemas : Nat := 16

abbrev ProjectionID := String

abbrev Cursor := String

def validIdentity (value : String) (maxBytes : Nat) : Bool :=
  value != "" && value.utf8ByteSize ≤ maxBytes && trimSpace value == value &&
    value.toList.all fun r => !isControl r

/-- `validFingerprint`: 64 lower-case hexadecimal digits. -/
def validFingerprint (value : String) : Bool :=
  value.utf8ByteSize == fingerprintBytes &&
    value.toList.all fun r => ('0' ≤ r && r ≤ '9') || ('a' ≤ r && r ≤ 'f')

/-- `ProjectionID.Validate`. -/
def validateID (id : ProjectionID) : Except Error Unit :=
  if !validIdentity id maxProjectionIDBytes then .error (.wrapped .errInvalidProjectionID id)
  else .ok ()

/-- `Cursor.Validate`. -/
def validateCursor (cursor : Cursor) : Except Error Unit :=
  if !validIdentity cursor maxCursorBytes then .error (.wrapped .errInvalidCursor cursor)
  else .ok ()

/-! ## Schemas -/

/-- `FingerprintSet`: the first `count` entries of its array. -/
structure FingerprintSet where
  values : List String
  deriving DecidableEq

/-- `FingerprintSet.Contains`: `sort.SearchStrings` finds the first entry that is not smaller. -/
def FingerprintSet.contains (set : FingerprintSet) (fingerprint : String) : Bool :=
  (set.values.find? fun value => decide (fingerprint ≤ value)) == some fingerprint

/-- `Schema`. -/
structure Schema where
  id : ProjectionID
  fingerprint : String
  keyFingerprint : String
  compatibleFingerprints : FingerprintSet
  deriving DecidableEq

/-- The loop of `Schema.Validate` accepts: valid, not the current one, ascending. -/
def compatibleOk (fingerprint : String) : List String → Bool
  | [] => true
  | value :: rest =>
    validFingerprint value && value != fingerprint &&
      (match rest with
       | [] => true
       | next :: _ => decide (value < next)) &&
      compatibleOk fingerprint rest

def Schema.validate (schema : Schema) : Except Error Unit :=
  match validateID schema.id with
  | .error err => .error (.chained .errInvalidSchema "" err)
  | .ok () =>
    if !validFingerprint schema.fingerprint then .error (.wrapped .errInvalidSchema "fingerprint")
    else if !validFingerprint schema.keyFingerprint then
      .error (.wrapped .errInvalidSchema "key fingerprint")
    else if schema.compatibleFingerprints.values.length > maxCompatibleSchemas then
      .error (.wrapped .errInvalidSchema "too many compatible fingerprints")
    else if !compatibleOk schema.fingerprint schema.compatibleFingerprints.values then
      .error (.wrapped .errInvalidSchema "compatible fingerprints")
    else .ok ()

/-- `Schema.Accepts`: the directional contract of a consumer's schema. -/
def Schema.accepts (schema owner : Schema) : Except Error Unit :=
  if schema.id != owner.id then
    .error (.schemaMismatch schema.id "projection_id" schema.id owner.id)
  else if schema.fingerprint != owner.fingerprint &&
      !schema.compatibleFingerprints.contains owner.fingerprint then
    .error (.schemaMismatch schema.id "fingerprint" schema.fingerprint owner.fingerprint)
  else if schema.keyFingerprint != owner.keyFingerprint then
    .error (.schemaMismatch schema.id "key_fingerprint" schema.keyFingerprint owner.keyFingerprint)
  else .ok ()

/-! ## Mutations and rows -/

/-- `MutationKind`; `other` is a value outside the declared constants. -/
inductive MutationKind where
  | upsert
  | delete
  | other (code : UInt8)
  deriving DecidableEq

/-- `Mutation`. -/
structure Mutation where
  kind : MutationKind
  key : List UInt8
  value : List UInt8
  deriving DecidableEq

def upsert (key value : List UInt8) : Mutation := ⟨.upsert, key, value⟩

def delete (key : List UInt8) : Mutation := ⟨.delete, key, []⟩

/-- `len(key) + len(value)`. -/
def Mutation.bytes (mutation : Mutation) : Nat := mutation.key.length + mutation.value.length

def Mutation.validate (mutation : Mutation) : Except Error Unit :=
  if mutation.key.length == 0 || mutation.key.length > maxKeyBytes then
    .error (.wrapped .errInvalidMutation "key")
  else match mutation.kind with
    | .upsert =>
      if mutation.value.length > maxValueBytes then .error (.wrapped .errInvalidMutation "value")
      else .ok ()
    | .delete =>
      if mutation.value.length != 0 then .error (.wrapped .errInvalidMutation "delete value")
      else .ok ()
    | .other _ => .error (.wrapped .errInvalidMutation "kind")

/-- The rows of a projection. -/
abbrev Rows := Map (List UInt8) (List UInt8)

/-- One mutation of the rows: the `switch` that the owner, the store and its transactions share.
A mutation of another kind has been rejected by `Mutation.Validate` before. -/
def Mutation.apply (mutation : Mutation) (rows : Rows) : Rows :=
  match mutation.kind with
  | .upsert => rows.insert mutation.key mutation.value
  | .delete => rows.erase mutation.key
  | .other _ => rows

/-- The mutations one after another. -/
def applyMutations (rows : Rows) (mutations : List Mutation) : Rows :=
  mutations.foldl (fun rows mutation => mutation.apply rows) rows

/-! ## Deltas -/

/-- `DeltaBatch`. -/
structure DeltaBatch where
  schema : Schema
  previous : Cursor
  cursor : Cursor
  sourceTime : Time
  mutations : List Mutation
  deriving DecidableEq

/-- The loop of `DeltaBatch.Validate`, from `index` on with `totalBytes` so far. -/
def validateDeltaMutations (index totalBytes : Nat) : List Mutation → Except Error Unit
  | [] => .ok ()
  | mutation :: rest =>
    match mutation.validate with
    | .error err => .error (.chained .errInvalidDelta s!"mutation {index}" err)
    | .ok () =>
      if totalBytes + mutation.bytes > maxDeltaBytes then
        .error (.wrapped .errInvalidDelta "byte budget")
      else validateDeltaMutations (index + 1) (totalBytes + mutation.bytes) rest

def DeltaBatch.validate (batch : DeltaBatch) : Except Error Unit :=
  match batch.schema.validate with
  | .error err => .error (.chained .errInvalidDelta "" err)
  | .ok () =>
    match validateCursor batch.previous with
    | .error err => .error (.chained .errInvalidDelta "previous cursor" err)
    | .ok () =>
      match validateCursor batch.cursor with
      | .error err => .error (.chained .errInvalidDelta "cursor" err)
      | .ok () =>
        if batch.cursor == batch.previous then
          .error (.wrapped .errInvalidDelta "cursor did not advance")
        else if batch.sourceTime.isZero then .error (.wrapped .errInvalidDelta "source time")
        else if batch.mutations.length == 0 || batch.mutations.length > maxDeltaMutations then
          .error (.wrapped .errInvalidDelta "mutation count")
        else validateDeltaMutations 0 0 batch.mutations

/-! ## Checkpoints -/

/-- `Checkpoint`. -/
structure Checkpoint where
  schema : Schema
  cursor : Cursor
  generation : UInt64
  sourceTime : Time
  appliedAt : Time
  deriving DecidableEq

/-- The largest `time.Duration`; `Time.Sub` saturates there. -/
def maxDuration : Duration := 2 ^ 63 - 1

def Checkpoint.freshness (checkpoint : Checkpoint) (now : Time) : Duration :=
  if checkpoint.sourceTime.isZero || now.isZero || now < checkpoint.sourceTime then 0
  else min (now - checkpoint.sourceTime) maxDuration

/-! ## Subscriptions and frames -/

/-- `SubscribeRequest`. -/
structure SubscribeRequest where
  schema : Schema
  after : Cursor := ""
  forceSnapshot : Bool := false
  deriving DecidableEq

def SubscribeRequest.validate (r : SubscribeRequest) : Except Error Unit :=
  match r.schema.validate with
  | .error err => .error (.chained .errInvalidSubscription "" err)
  | .ok () =>
    if r.forceSnapshot then
      if r.after != "" then
        .error (.wrapped .errInvalidSubscription "forced snapshot has a resume cursor")
      else .ok ()
    else match validateCursor r.after with
      | .error err => .error (.chained .errInvalidSubscription "resume cursor" err)
      | .ok () => .ok ()

/-- `Frame`. -/
inductive Frame where
  | snapshotBegin (schema : Schema)
  | snapshotChunk (mutations : List Mutation)
  | snapshotEnd (cursor : Cursor) (sourceTime : Time)
  | delta (batch : DeltaBatch)
  | heartbeat (cursor : Cursor) (sourceTime : Time)
  | gap (requested floor : Cursor)
  deriving DecidableEq

end Keelith.Projection

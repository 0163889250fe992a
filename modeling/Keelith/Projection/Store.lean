import Keelith.Lib.Checks
import Keelith.Projection.Model

/-!
# The memory projection store

`programmable/projection/memory/store.go`: visible generations by projection, snapshot transactions
that stage the next one, and deltas that continue the current one.

A method takes its lock once, so a call is one step. `Stage` and `Abort` only touch the
transaction. A method that can fail returns its result beside the state it leaves. The clock of the
store is the argument `now`.

* `DeltaEffect`, `CommitEffect`: all that the two writers can do, with the guards under which they
  do it.
-/

namespace Keelith.Projection.Memory

/-- `state`: one visible generation. -/
structure State where
  schema : Schema
  cursor : Cursor
  generation : UInt64
  sourceTime : Time
  appliedAt : Time
  values : Rows
  lastDelta : List UInt8 := []
  hasLastDelta : Bool := false
  deriving DecidableEq

/-- `Store`. -/
structure Store where
  states : Map ProjectionID State
  deriving DecidableEq

/-- `New`. -/
def newStore : Store := ⟨∅⟩

/-- `snapshotTxn`. -/
structure SnapshotTxn where
  schema : Schema
  baseGeneration : UInt64
  values : Rows
  closed : Bool
  deriving DecidableEq

def validateContext (ctx : Context) : Except Error Unit :=
  match ctx.cause with
  | some cause => .error cause
  | none => .ok ()

def compatibleSchema (expected actual : Schema) : Except Error Unit :=
  if expected.fingerprint != actual.fingerprint then
    .error (.schemaMismatch actual.id "fingerprint" expected.fingerprint actual.fingerprint)
  else if expected.keyFingerprint != actual.keyFingerprint then
    .error (.schemaMismatch actual.id "key_fingerprint" expected.keyFingerprint
      actual.keyFingerprint)
  else .ok ()

/-! ## The digest of a delta -/

/-- `writeDigestUint64`. -/
def digestUint64 (value : Nat) : List UInt8 := Sha256.bigEndian 8 (value % 2 ^ 64)

/-- `writeDigestBytes`. -/
def digestBytes (value : List UInt8) : List UInt8 := digestUint64 value.length ++ value

/-- `writeDigestString`. -/
def digestString (value : String) : List UInt8 := digestBytes (bytesOf value)

/-- `uint64(kind)`. -/
def kindCode : MutationKind → Nat
  | .upsert => 1
  | .delete => 2
  | .other code => code.toNat

/-- Nanoseconds from the zero time to the Unix epoch. -/
def unixEpoch : Time := 62135596800 * second

/-- `uint64(t.UnixNano())`. -/
def unixNano (t : Time) : Nat := ((t - unixEpoch) % 2 ^ 64).toNat

def deltaDigest (batch : DeltaBatch) : List UInt8 :=
  sha256 (digestString batch.schema.id ++ digestString batch.schema.fingerprint ++
    digestString batch.schema.keyFingerprint ++ digestString batch.previous ++
    digestString batch.cursor ++ digestUint64 (unixNano batch.sourceTime) ++
    batch.mutations.flatMap fun mutation =>
      digestUint64 (kindCode mutation.kind) ++ digestBytes mutation.key ++
        digestBytes mutation.value)

/-- The checkpoint of a visible generation. -/
def State.checkpoint (current : State) : Checkpoint :=
  { schema := current.schema, cursor := current.cursor, generation := current.generation,
    sourceTime := current.sourceTime, appliedAt := current.appliedAt }

namespace Store

/-! ## Operations -/

/-- The store with a new visible generation of one projection. -/
def withState (s : Store) (id : ProjectionID) (state : State) : Store := ⟨s.states.insert id state⟩

def beginSnapshot (s : Store) (ctx : Context) (schema : Schema) : Except Error SnapshotTxn := do
  validateContext ctx
  schema.validate
  match s.states.lookup schema.id with
  | none => .ok { schema, baseGeneration := 0, values := ∅, closed := false }
  | some current => do
    compatibleSchema current.schema schema
    .ok { schema, baseGeneration := current.generation, values := ∅, closed := false }

/-- The check of `ApplyDelta` under the lock: the new visible generation, or nothing to do for
a delta that was applied last. -/
def nextState (s : Store) (now : Time) (batch : DeltaBatch) : Except Error (Option State) :=
  match s.states.lookup batch.schema.id with
  | none => .error (.wrapped .errProjectionNotFound batch.schema.id)
  | some current =>
    match compatibleSchema current.schema batch.schema with
    | .error err => .error err
    | .ok () =>
      if current.cursor == batch.cursor then
        if current.hasLastDelta && current.lastDelta == deltaDigest batch then .ok none
        else
          .error (.wrapped .errReplayConflict
            s!"projection {batch.schema.id} cursor {batch.cursor}")
      else if current.cursor != batch.previous then
        .error (.cursorMismatch batch.schema.id current.cursor batch.previous)
      else
        .ok (some { schema := batch.schema, cursor := batch.cursor,
                    generation := current.generation + 1, sourceTime := batch.sourceTime,
                    appliedAt := now, values := applyMutations current.values batch.mutations,
                    lastDelta := deltaDigest batch, hasLastDelta := true })

def applyDelta (s : Store) (ctx : Context) (now : Time) (batch : DeltaBatch) :
    Except Error Unit × Store :=
  match validateContext ctx with
  | .error err => (.error err, s)
  | .ok () =>
    match batch.validate with
    | .error err => (.error err, s)
    | .ok () =>
      match s.nextState now batch with
      | .error err => (.error err, s)
      | .ok none => (.ok (), s)
      | .ok (some next) => (.ok (), s.withState batch.schema.id next)

def get (s : Store) (ctx : Context) (id : ProjectionID) (key : List UInt8) :
    Except Error (Option (List UInt8)) := do
  validateContext ctx
  validateID id
  (upsert key []).validate
  match s.states.lookup id with
  | none => .ok none
  | some current => .ok (current.values.lookup key)

def checkpoint (s : Store) (ctx : Context) (id : ProjectionID) :
    Except Error (Option Checkpoint) := do
  validateContext ctx
  validateID id
  .ok ((s.states.lookup id).map State.checkpoint)

end Store

namespace SnapshotTxn

def stage (txn : SnapshotTxn) (mutation : Mutation) : Except Error SnapshotTxn :=
  match mutation.validate with
  | .error err => .error err
  | .ok () =>
    if txn.closed then .error (.sentinel .errSnapshotClosed)
    else .ok { txn with values := mutation.apply txn.values }

def abort (txn : SnapshotTxn) : SnapshotTxn := { txn with closed := true, values := ∅ }

/-- The generation that a transaction finds: `0` for a projection that has none. -/
def currentGeneration (current : Option State) : UInt64 :=
  match current with
  | none => 0
  | some state => state.generation

/-- The schema check of `Commit`, if the projection has a generation. -/
def checkSchema (txn : SnapshotTxn) : Option State → Except Error Unit
  | none => .ok ()
  | some state => compatibleSchema state.schema txn.schema

/-- The generation that `Commit` publishes. -/
def published (txn : SnapshotTxn) (current : Option State) (now : Time) (cursor : Cursor)
    (sourceTime : Time) : State :=
  { schema := txn.schema, cursor, generation := currentGeneration current + 1, sourceTime,
    appliedAt := now, values := txn.values }

def commit (txn : SnapshotTxn) (s : Store) (ctx : Context) (now : Time) (cursor : Cursor)
    (sourceTime : Time) : Except Error Unit × SnapshotTxn × Store :=
  match validateContext ctx with
  | .error err => (.error err, txn, s)
  | .ok () =>
    match validateCursor cursor with
    | .error err => (.error err, txn, s)
    | .ok () =>
      if sourceTime.isZero then
        (.error (.external "projection memory: source time is zero"), txn, s)
      else if txn.closed then (.error (.sentinel .errSnapshotClosed), txn, s)
      else
        let current := s.states.lookup txn.schema.id
        match txn.checkSchema current with
        | .error err => (.error err, txn, s)
        | .ok () =>
          let generation := currentGeneration current
          if generation != txn.baseGeneration then
            (.error (.wrapped .errSnapshotConflict
              s!"projection {txn.schema.id} expected generation {txn.baseGeneration}, got {generation}"),
             { txn with closed := true }, s)
          else
            (.ok (), txn.abort,
             s.withState txn.schema.id (txn.published current now cursor sourceTime))

end SnapshotTxn

/-! ## What the writers can do -/

/-- The visible state after a delta. -/
def State.after (current : State) (now : Time) (batch : DeltaBatch) : State :=
  { schema := batch.schema, cursor := batch.cursor, generation := current.generation + 1
    sourceTime := batch.sourceTime, appliedAt := now
    values := applyMutations current.values batch.mutations
    lastDelta := deltaDigest batch, hasLastDelta := true }

/-- All that `ApplyDelta` can do. -/
inductive DeltaEffect (s : Store) (now : Time) (batch : DeltaBatch) :
    Except Error Unit × Store → Prop
  | failed (err : Error) : DeltaEffect s now batch (.error err, s)
  /-- The delta was applied last. -/
  | replayed {current : State} (hlookup : s.states.lookup batch.schema.id = some current)
      (hcursor : current.cursor = batch.cursor) : DeltaEffect s now batch (.ok (), s)
  | applied {current : State} (hlookup : s.states.lookup batch.schema.id = some current)
      (hvalid : batch.validate = .ok ())
      (hschema : compatibleSchema current.schema batch.schema = .ok ())
      (hcursor : current.cursor = batch.previous) (hnew : current.cursor ≠ batch.cursor) :
      DeltaEffect s now batch (.ok (), s.withState batch.schema.id (current.after now batch))

/-- When `ApplyDelta` succeeds: it publishes a generation, or has nothing to do. -/
theorem nextState_ok {s : Store} {now : Time} {batch : DeltaBatch} {next : Option State}
    (h : s.nextState now batch = .ok next) :
    ∃ current, s.states.lookup batch.schema.id = some current ∧
      compatibleSchema current.schema batch.schema = .ok () ∧
      (next = none ∧ current.cursor = batch.cursor ∧ current.hasLastDelta = true ∧
         current.lastDelta = deltaDigest batch ∨
       current.cursor ≠ batch.cursor ∧ current.cursor = batch.previous ∧
         next = some (current.after now batch)) := by
  unfold Store.nextState at h
  split at h
  · cases h
  next current hlookup =>
    split at h
    · cases h
    next hschema =>
      refine ⟨current, hlookup, hschema, ?_⟩
      split at h
      next hcursor =>
        split at h
        next hdigest =>
          cases h
          exact .inl ⟨rfl, by simpa using hcursor, by simpa using hdigest⟩
        · cases h
      next hcursor =>
        split at h
        · cases h
        next hprevious =>
          cases h
          exact .inr ⟨by simpa using hcursor, by simpa using hprevious, rfl⟩

theorem applyDelta_effect (s : Store) (ctx : Context) (now : Time) (batch : DeltaBatch) :
    DeltaEffect s now batch (s.applyDelta ctx now batch) := by
  unfold Store.applyDelta
  split
  · exact .failed _
  split
  · exact .failed _
  next hvalid =>
    split
    · exact .failed _
    next hnext =>
      obtain ⟨current, hlookup, -, ⟨-, hcursor, -⟩ | ⟨-, -, hsome⟩⟩ := nextState_ok hnext
      · exact .replayed hlookup hcursor
      · cases hsome
    next next hnext =>
      obtain ⟨current, hlookup, hschema, ⟨hnone, -⟩ | ⟨hnew, hprevious, hsome⟩⟩ :=
        nextState_ok hnext
      · cases hnone
      · cases hsome
        exact .applied hlookup hvalid hschema hprevious hnew

/-- All that `Commit` can do. -/
inductive CommitEffect (txn : SnapshotTxn) (s : Store) (now : Time) (cursor : Cursor)
    (sourceTime : Time) : Except Error Unit × SnapshotTxn × Store → Prop
  | failed (err : Error) (closed : SnapshotTxn) :
      CommitEffect txn s now cursor sourceTime (.error err, closed, s)
  | published (hopen : txn.closed = false) (htime : sourceTime.isZero = false)
      (hschema : txn.checkSchema (s.states.lookup txn.schema.id) = .ok ())
      (hbase : SnapshotTxn.currentGeneration (s.states.lookup txn.schema.id) = txn.baseGeneration) :
      CommitEffect txn s now cursor sourceTime (.ok (), txn.abort, s.withState txn.schema.id
        (txn.published (s.states.lookup txn.schema.id) now cursor sourceTime))

theorem commit_effect (txn : SnapshotTxn) (s : Store) (ctx : Context) (now : Time)
    (cursor : Cursor) (sourceTime : Time) :
    CommitEffect txn s now cursor sourceTime (txn.commit s ctx now cursor sourceTime) := by
  unfold SnapshotTxn.commit
  split
  · exact .failed _ _
  split
  · exact .failed _ _
  split
  · exact .failed _ _
  next htime =>
    split
    · exact .failed _ _
    next hclosed =>
      dsimp only
      split
      · exact .failed _ _
      next hschema =>
        split
        · exact .failed _ _
        next hbase =>
          exact .published (by simpa using hclosed) (by simpa using htime) hschema
            (by simpa using hbase)

theorem lookup_withState (s : Store) (id : ProjectionID) (state : State) :
    (s.withState id state).states.lookup id = some state := by
  rw [Store.withState, Map.lookup_insert_eq, if_pos rfl]

/-- What `Checkpoint` returns. -/
theorem checkpoint_ok {s : Store} {ctx : Context} {id : ProjectionID} {result : Option Checkpoint}
    (h : s.checkpoint ctx id = .ok result) :
    result = (s.states.lookup id).map State.checkpoint := by
  obtain ⟨-, -, h⟩ := bind_eq_ok.mp h
  obtain ⟨-, -, h⟩ := bind_eq_ok.mp h
  exact (Except.ok.inj h).symm

end Keelith.Projection.Memory

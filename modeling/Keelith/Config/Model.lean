import Keelith.Lib.Bytes
import Keelith.Lib.Run

/-!
# The configuration manager

`config/config.go`, `merge.go` and `snapshot.go`: a manager that merges the snapshots of its sources
and publishes them, by calls of `Load` and by one `Watch` loop.

- **Values** (`Value`): JSON-like trees; texts are bytes. A Go map is a list of entries in the order
  of its keys; a value of a type that `cloneValue` does not know is `unsupported`. `cloneValue`
  returns its argument or an error, so only its check is here (`cloneable`).
- **Sources** have a latest snapshot, which `Load` reads, and a queue of the snapshots that their
  watcher has not yet delivered. The channel of the watch loop keeps the order of each source and
  mixes the sources in any way, so the loop takes the next event of any source.
- **Steps**: a source is read in one step, and `publish` is one step (it holds `updateMu`). The
  subscribers that it notifies, and the texts of rejections, are left out.
- **Outside**: the schema and the validators are one parameter (`check`). Sources and contexts may
  fail.
-/

namespace Keelith.Config

/-! ## Snapshots -/

/-- A value of a snapshot. -/
inductive Value where
  /-- `Delete()`. -/
  | deleteValue
  | null
  /-- A boolean, a number or a string. -/
  | scalar (text : Bytes)
  | map (entries : List (Bytes × Value))
  | list (items : List Value)
  | unsupported (typeName : Bytes)

mutual

/-- `cloneValue` succeeds. -/
def Value.cloneable (allowDelete : Bool) : Value → Bool
  | .deleteValue => allowDelete
  | .null => true
  | .scalar _ => true
  | .map entries => cloneableEntries allowDelete entries
  | .list items => cloneableItems allowDelete items
  | .unsupported _ => false

/-- `cloneMap` succeeds. -/
def cloneableEntries (allowDelete : Bool) : List (Bytes × Value) → Bool
  | [] => true
  | (key, value) :: entries => key != [] && value.cloneable allowDelete &&
      cloneableEntries allowDelete entries

/-- `cloneValue` succeeds on each item. -/
def cloneableItems (allowDelete : Bool) : List Value → Bool
  | [] => true
  | item :: items => item.cloneable allowDelete && cloneableItems allowDelete items

end

/-- `Snapshot`. -/
structure Snapshot where
  revision : Bytes
  values : List (Bytes × Value)

/-- `Snapshot.validate` succeeds. -/
def Snapshot.valid (s : Snapshot) : Bool := !s.revision.blank && cloneableEntries true s.values

/-! ## Merge -/

/-- `target[key] = value`. -/
def setKey (key : Bytes) (value : Value) : List (Bytes × Value) → List (Bytes × Value)
  | [] => [(key, value)]
  | (k, v) :: rest =>
    if key = k then (key, value) :: rest
    else if key < k then (key, value) :: (k, v) :: rest
    else (k, v) :: setKey key value rest

/-- `target[key].(map[string]any)`, or an empty map. -/
def mapAt (target : List (Bytes × Value)) (key : Bytes) : List (Bytes × Value) :=
  match target.lookup key with
  | some (.map entries) => entries
  | _ => []

mutual

/-- The loop of `mergeMap` at one entry of the overlay. -/
def mergeEntry (target : List (Bytes × Value)) (key : Bytes) : Value → List (Bytes × Value)
  | .deleteValue => target.filter fun entry => entry.1 != key
  | .map overlay => setKey key (.map (mergeMap (mapAt target key) overlay)) target
  | .null => setKey key .null target
  | .scalar text => setKey key (.scalar text) target
  | .list items => setKey key (.list items) target
  | .unsupported typeName => setKey key (.unsupported typeName) target

def mergeMap (target : List (Bytes × Value)) : List (Bytes × Value) → List (Bytes × Value)
  | [] => target
  | (key, value) :: rest => mergeMap (mergeEntry target key value) rest

end

/-- The part of `combineRevisions` for one revision: its length in bytes and the revision. -/
def revisionPart (revision : Bytes) : Bytes :=
  Bytes.formatNat revision.length ++ ':'.toUInt8 :: revision

/-- The loop of `combineRevisions`. -/
def revisionParts : List Bytes → Bytes
  | [] => []
  | [revision] => revisionPart revision
  | revision :: rest => revisionPart revision ++ '|'.toUInt8 :: revisionParts rest

def combineRevisions : List Bytes → Bytes
  | [revision] => revision
  | revisions => revisionParts revisions

/-- The errors of `Merge`. -/
inductive MergeError where
  | noSnapshots
  | source (index : Nat)
  | merged
  deriving DecidableEq

def merge (snapshots : List Snapshot) : Except MergeError Snapshot :=
  if snapshots = [] then .error .noSnapshots
  else
    match snapshots.findIdx? fun s => !s.valid with
    | some index => .error (.source index)
    | none =>
      let values := snapshots.foldl (fun target s => mergeMap target s.values) []
      if cloneableEntries false values then
        .ok { revision := combineRevisions (snapshots.map Snapshot.revision), values }
      else .error .merged

/-! ## The manager -/

/-- What `publish` does with a candidate. -/
inductive Published where
  | unchanged
  | rejected
  | stored
  deriving DecidableEq

/-- `Manager.publish`. -/
def publish (check : Snapshot → Bool) (current : Option Snapshot) (candidate : Snapshot) :
    Published :=
  if current.any fun c => c.revision == candidate.revision then .unchanged
  else if !check candidate then .rejected
  else .stored

/-- Where a call of `Load` is. -/
inductive LoadPhase where
  /-- It has read some sources. -/
  | reading (snapshots : List Snapshot)
  | publishing (candidate : Snapshot)
  | returned

/-- Where the call of `Watch` is. -/
inductive WatchPhase where
  | idle
  /-- So many watchers are established. -/
  | establishing (count : Nat)
  | reading (snapshots : List Snapshot)
  | publishing (sourceSnapshots : List Snapshot) (candidate : Snapshot)
  | looping (sourceSnapshots : List Snapshot)

/-- The manager, its sources and its callers. -/
structure Manager where
  latest : List Snapshot
  queue : Nat → List Snapshot
  current : Option Snapshot
  watch : WatchPhase
  loads : List LoadPhase

/-- What may happen next. -/
inductive Input where
  /-- A source has a new snapshot. -/
  | update (source : Nat) (snapshot : Snapshot)
  | load
  /-- The call of `Load` goes on; it may fail. -/
  | loadStep (call : Nat) (fails : Bool)
  | watch
  /-- `Watch` goes on up to its loop; it may fail. A new watcher may deliver the snapshot that it
  finds. -/
  | watchStep (fails initial : Bool)
  /-- The loop takes the next event of the source. -/
  | event (source : Nat)
  /-- The loop ends. -/
  | stop

namespace Manager

/-- The watcher of the source is established. -/
def watches (m : Manager) (source : Nat) : Bool :=
  match m.watch with
  | .idle => false
  | .establishing count => source < count
  | _ => true

/-- The watcher of the source, if it is established, will deliver the snapshot. -/
def deliver (m : Manager) (source : Nat) (snapshot : Snapshot) : Nat → List Snapshot :=
  if m.watches source then Function.update m.queue source (m.queue source ++ [snapshot])
  else m.queue

/-- `loadSources` at its next source. -/
def readNext (m : Manager) (snapshots : List Snapshot) : Option Snapshot :=
  (m.latest[snapshots.length]?).filter Snapshot.valid

/-- One step of `Load`. -/
def stepLoad (check : Snapshot → Bool) (m : Manager) (call : Nat) (fails : Bool) : Manager :=
  let moved (phase : LoadPhase) : Manager := { m with loads := m.loads.set call phase }
  match m.loads[call]? with
  | some (.reading snapshots) =>
    if snapshots.length < m.latest.length then
      match m.readNext snapshots with
      | some snapshot =>
        if fails then moved .returned else moved (.reading (snapshots ++ [snapshot]))
      | none => moved .returned
    else
      match merge snapshots with
      | .error _ => moved .returned
      | .ok candidate => moved (.publishing candidate)
  | some (.publishing candidate) =>
    match publish check m.current candidate with
    | .stored => { moved .returned with current := some candidate }
    | _ => moved .returned
  | _ => m

/-- One step of `Watch` up to its loop. -/
def stepWatch (check : Snapshot → Bool) (m : Manager) (fails initial : Bool) : Manager :=
  match m.watch with
  | .establishing count =>
    if count < m.latest.length then
      if fails then { m with watch := .idle }
      else { m with
        watch := .establishing (count + 1)
        queue := Function.update m.queue count (if initial then m.latest[count]?.toList else []) }
    else { m with watch := .reading [] }
  | .reading snapshots =>
    if snapshots.length < m.latest.length then
      match m.readNext snapshots with
      | some snapshot =>
        { m with watch := if fails then .idle else .reading (snapshots ++ [snapshot]) }
      | none => { m with watch := .idle }
    else
      match merge snapshots with
      | .error _ => { m with watch := .idle }
      | .ok candidate => { m with watch := .publishing snapshots candidate }
  | .publishing snapshots candidate =>
    match publish check m.current candidate with
    | .rejected => { m with watch := .idle }
    | .unchanged => { m with watch := .looping snapshots }
    | .stored => { m with current := some candidate, watch := .looping snapshots }
  | _ => m

/-- The loop of `Watch` at an event. -/
def process (check : Snapshot → Bool) (m : Manager) (source : Nat) : Manager :=
  match m.watch, m.queue source with
  | .looping sourceSnapshots, snapshot :: rest =>
    let candidateSources := sourceSnapshots.set source snapshot
    let m := { m with queue := Function.update m.queue source rest }
    match merge candidateSources with
    | .error _ => m
    | .ok candidate =>
      match publish check m.current candidate with
      | .stored => { m with current := some candidate, watch := .looping candidateSources }
      | _ => m
  | _, _ => m

/-- One input. -/
def exec (check : Snapshot → Bool) (m : Manager) : Input → Unit × Manager
  | .update source snapshot => ((),
      if source < m.latest.length then
        { m with latest := m.latest.set source snapshot, queue := m.deliver source snapshot }
      else m)
  | .load => ((), { m with loads := m.loads ++ [.reading []] })
  | .loadStep call fails => ((), m.stepLoad check call fails)
  | .watch => ((), match m.watch with
      | .idle => { m with watch := .establishing 0 }
      | _ => m)
  | .watchStep fails initial => ((), m.stepWatch check fails initial)
  | .event source => ((), m.process check source)
  | .stop => ((), match m.watch with
      | .looping _ => { m with watch := .idle }
      | _ => m)

/-- A new manager of some sources. -/
def new (latest : List Snapshot) : Manager := ⟨latest, fun _ => [], none, .idle, []⟩

/-- The machine. -/
def machine (check : Snapshot → Bool) : Machine Manager Input Unit where
  init m := ∃ latest, m = .new latest
  exec := exec check
  may _ _ _ := True

end Manager

end Keelith.Config

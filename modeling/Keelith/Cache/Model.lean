import Keelith.Lib.Run
import Keelith.Lib.Text
import Keelith.Lib.Time
import Mathlib.Data.Finset.Sort

/-!
# The read-through cache

`cache/cache.go` and `cache/memory/memory.go`: any number of caches over one backend, as threads
that are interleaved at every access of shared memory.

- **Threads**: the calls of `Get`, the flights of `singleflight` that they create, and the mutations
  (`Set`, `Invalidate`, `ObserveInvalidation`, `InvalidateVersion`). A step that has to wait (for a
  stripe, for a flight) changes nothing.
- **The backend** is linearizable: a call takes effect in one step. A call that fails may have taken
  effect or not, and an entry may expire at any time; so the lifetimes and their jitter are left
  out. `CurrentVersion`, `SetIfVersion` and `ApplyInvalidation` are those of the memory store.
- **Outside**: the codec, the policy and the values are parameters. What the backend, the loader and
  the context answer is part of a step (`Answer`). Contexts are not nil. The counters of
  `Description` are left out.
- **`singleflight`** is not part of the repository: `Singleflight` is any implementation that does
  what is documented.
- **Stamps** are not in the source: the step at which an entry was written, a loader was started or
  a call was made.
-/

namespace Keelith.Cache

/-- The errors of the package, and others by their text. -/
inductive Error where
  | errCorrupt (text : String)
  | errInvalidOption (text : String)
  | errVersioningUnsupported
  | errStaleWrite
  | errVersionRequired
  | joined (first second : Error)
  | other (text : String)
  deriving DecidableEq

/-- `Codec`. -/
structure Codec (τ : Type) where
  encode : τ → Except Error (List UInt8)
  decode : List UInt8 → Except Error τ

/-- `Policy` without the lifetimes of values. -/
structure Policy where
  negativeTTL : Duration
  failOpen : Bool
  isNegative : Option (Error → Bool)
  negativeError : Error

/-- What `New` is given. -/
structure Config (τ : Type) where
  codec : Codec τ
  policy : Policy
  versioned : Bool

/-- The condition under which `Get` stores a negative entry. -/
def Policy.negative (policy : Policy) (loadErr : Error) : Bool :=
  match policy.isNegative with
  | some isNegative => isNegative loadErr && 0 < policy.negativeTTL
  | none => false

/-! ## Keys and stripes -/

def mutationStripes : Nat := 256

def maxCacheKeyBytes : Nat := 1024

def mutationStripeIndex (key : String) : Nat :=
  let hash := (bytesOf key).foldl (fun (hash : UInt32) b =>
    (hash ^^^ b.toUInt32) * 16777619) 2166136261
  hash.toNat % mutationStripes

/-- `validateKey` succeeds. -/
def validateKey (key : String) : Bool := boundedText key maxCacheKeyBytes

/-- The indices that `lockStripes` locks, in its order. -/
def lockStripes (keys : List String) : List Nat :=
  (keys.map mutationStripeIndex).toFinset.sort (· ≤ ·)

/-! ## Envelopes -/

def envelopeValue : UInt8 := 1

def envelopeNegative : UInt8 := 2

/-- An entry of the backend, with its stamps: when it was written and, if a loader's value was, when
the loader was started. -/
structure Entry where
  payload : List UInt8
  writtenAt : Nat
  loadedAt : Option Nat
  deriving DecidableEq

/-- Where a value comes from: the write that was read, the start of the loader. -/
structure Source where
  writtenAt : Option Nat
  loadedAt : Option Nat
  deriving DecidableEq

/-- The source of a value that was read. -/
def Entry.source (e : Entry) : Source := ⟨some e.writtenAt, e.loadedAt⟩

/-- What the backend answers: a call that fails may have taken effect. -/
inductive Reply where
  | ok
  | fail (err : Error) (applied : Bool)

/-- The call has taken effect. -/
def Reply.applied : Reply → Bool
  | .ok => true
  | .fail _ applied => applied

/-- The error of the call. -/
def Reply.error? : Reply → Option Error
  | .ok => none
  | .fail err _ => some err

/-- What `read` returns: a value, the negative error, nothing, or an error. -/
inductive Read (τ : Type) where
  | hit (value : τ) (source : Source)
  | negative
  | miss
  | failed (err : Error)

variable {τ : Type}

/-- `Cache.read`, given the backend's answer. -/
def Config.read (cfg : Config τ) (reply : Reply) (entry : Option Entry) : Read τ :=
  match reply with
  | .fail err _ => .failed err
  | .ok =>
    match entry with
    | none => .miss
    | some e =>
      match e.payload with
      | [] => .failed (.errCorrupt "empty envelope")
      | kind :: payload =>
        if kind = envelopeNegative then .negative
        else if kind = envelopeValue then
          match cfg.codec.decode payload with
          | .error err => .failed (.joined (.errCorrupt "decode") err)
          | .ok value => .hit value e.source
        else .failed (.errCorrupt "unknown envelope")

/-! ## Threads -/

/-- What a call of `Get` returns, with the source of a value. -/
abbrev Result (τ : Type) := Except Error (τ × Source)

/-- Where a call of `Get` is. -/
inductive GetPhase (τ : Type) where
  | reading
  | joining
  | waiting (flight : Nat)
  | returned (result : Result τ)
  deriving DecidableEq

/-- A call of `Get`. -/
structure GetCall (τ : Type) where
  cache : Nat
  key : String
  calledAt : Nat
  phase : GetPhase τ
  deriving DecidableEq

/-- What a flight has when its loader has returned: the generation and the version that it read
before, the start of the loader and its answer. -/
structure Load (τ : Type) where
  generation : UInt64
  version : Option UInt64
  startedAt : Nat
  outcome : Except Error τ
  deriving DecidableEq

/-- Where the function of a flight is. -/
inductive FlightPhase (τ : Type) where
  | created
  | counted (generation : UInt64)
  | missed (generation : UInt64)
  | ready (generation : UInt64) (version : Option UInt64)
  | loading (generation : UInt64) (version : Option UInt64) (startedAt : Nat)
  /-- It waits for the stripe. -/
  | storing (load : Load τ)
  /-- It has the stripe, and the generation was current. -/
  | writing (load : Load τ) (envelope : List UInt8)
  | unlocking (load : Load τ) (writeErr : Option Error)
  /-- The function has returned; the flight can still be joined. -/
  | finishing (result : Result τ)
  | finished (result : Result τ)
  deriving DecidableEq

/-- A flight. -/
structure Flight (τ : Type) where
  cache : Nat
  key : String
  createdAt : Nat
  phase : FlightPhase τ
  deriving DecidableEq

/-- The calls that mutate. -/
inductive Kind (τ : Type) where
  | set (value : τ)
  | invalidate
  | observe
  | version (version : UInt64)
  deriving DecidableEq

/-- `InvalidationState`. -/
inductive InvalidationState where
  | applied
  | current
  | stale
  deriving DecidableEq

/-- What a mutation returns. -/
inductive Answered where
  | done
  | count (deleted : Nat)
  | state (state : InvalidationState)
  deriving DecidableEq

/-- Where a mutation is. -/
inductive MutationPhase where
  /-- Its arguments were refused. -/
  | refused (err : Error)
  | applying
  | locking (todo : List Nat)
  | bumping (todo : List Nat)
  | forgetting (todo : List String)
  | acting
  /-- A versioned `Set` that has read the version. -/
  | setting (version : UInt64)
  | unlocking (todo : List Nat) (result : Except Error Answered)
  | returned (returnedAt : Nat) (result : Except Error Answered)
  deriving DecidableEq

/-- A call of a mutation. -/
structure Mutation (τ : Type) where
  cache : Nat
  kind : Kind τ
  keys : List String
  calledAt : Nat
  /-- What `ApplyInvalidation` has answered. -/
  state : Option InvalidationState
  phase : MutationPhase
  deriving DecidableEq

/-- A thread. -/
inductive Thread (τ : Type) where
  | get (call : GetCall τ)
  | flight (flight : Flight τ)
  | mutation (mutation : Mutation τ)
  deriving DecidableEq

/-! ## Groups -/

/-- `golang.org/x/sync/singleflight`. What a group holds is, for a key, the flight that a caller
would join. -/
structure Singleflight where
  /-- `DoChan`: the flight that the caller joins, or none if its function is run as the flight
  `fresh`. -/
  doChan (group : String → Option Nat) (key : String) (fresh : Nat) :
    Option Nat × (String → Option Nat)
  /-- `Forget`. -/
  forget (group : String → Option Nat) (key : String) : String → Option Nat
  /-- The function of the flight has returned. -/
  complete (group : String → Option Nat) (key : String) (flight : Nat) : String → Option Nat
  /-- A duplicate caller waits for the original one. -/
  doChan_joins {group key flight} (fresh : Nat) :
    group key = some flight → doChan group key fresh = (some flight, group)
  /-- Without an original one, the function is run. -/
  doChan_runs {group key} (fresh : Nat) : group key = none →
    doChan group key fresh = (none, Function.update group key (some fresh))
  /-- Later callers run their function rather than wait for an earlier one. -/
  forget_eq (group : String → Option Nat) (key : String) :
    forget group key = Function.update group key none
  /-- A flight that is complete cannot be joined; one that was created after a `Forget` still
  can. -/
  complete_eq (group : String → Option Nat) (key : String) (flight : Nat) :
    complete group key flight =
      if group key = some flight then Function.update group key none else group

/-- A group that is a map. -/
def Singleflight.map : Singleflight where
  doChan group key fresh :=
    match group key with
    | some flight => (some flight, group)
    | none => (none, Function.update group key (some fresh))
  forget group key := Function.update group key none
  complete group key flight :=
    if group key = some flight then Function.update group key none else group
  doChan_joins _ h := by rw [h]
  doChan_runs _ h := by rw [h]
  forget_eq _ _ := rfl
  complete_eq _ _ _ := rfl

/-! ## Shared memory -/

/-- What the threads share: the backend; for each cache its stripes (generation, the thread that has
the lock) and the flights of its group. -/
structure Shared where
  entries : String → Option Entry
  versions : String → UInt64
  generation : Nat → Nat → UInt64
  lock : Nat → Nat → Option Nat
  group : Nat → String → Option Nat

namespace Shared

/-- `Set` of the backend. -/
def write (s : Shared) (key : String) (e : Entry) : Shared :=
  { s with entries := Function.update s.entries key (some e) }

/-- `Delete` of the backend. -/
def delete (s : Shared) (keys : List String) : Shared :=
  { s with entries := fun key => if key ∈ keys then none else s.entries key }

/-- The keys that `Delete` counts. -/
def deleted (s : Shared) (keys : List String) : Nat :=
  (keys.dedup.filter fun key => (s.entries key).isSome).length

def setLock (s : Shared) (cache stripe : Nat) (holder : Option Nat) : Shared :=
  { s with lock := Function.update s.lock cache (Function.update (s.lock cache) stripe holder) }

/-- `generation.Add(1)`. -/
def bump (s : Shared) (cache stripe : Nat) : Shared :=
  { s with
    generation := Function.update s.generation cache
      (Function.update (s.generation cache) stripe (s.generation cache stripe + 1)) }

def setGroup (s : Shared) (cache : Nat) (group : String → Option Nat) : Shared :=
  { s with group := Function.update s.group cache group }

/-- `ApplyInvalidation`, for a version that is not zero. -/
def applyInvalidation (s : Shared) (key : String) (version : UInt64) : InvalidationState × Shared :=
  if s.versions key < version then
    (.applied, { (s.delete [key]) with versions := Function.update s.versions key version })
  else if version = s.versions key then (.current, s)
  else (.stale, s)

end Shared

/-! ## Steps -/

/-- What is seen of a step. -/
inductive Observation where
  | silent
  /-- A mutation advances the generation of a stripe. -/
  | bumps (cache stripe : Nat)
  /-- A flight writes to the backend. -/
  | stores (cache : Nat) (key : String) (createdAt startedAt : Nat)
  /-- An invalidation is applied at the backend. -/
  | applied (key : String)
  deriving DecidableEq

/-- What the outside answers in a step: the backend, the loader, and the cause if the context is
done. -/
structure Answer (τ : Type) where
  reply : Reply
  loaded : Except Error τ
  canceled : Option Error

/-- What a step does: the thread and the shared memory after it, and a flight that it creates. -/
structure Move (τ : Type) where
  thread : Thread τ
  shared : Shared
  spawned : List (Thread τ) := []
  output : Observation := .silent

/-- The system. -/
structure System (τ : Type) where
  shared : Shared
  threads : List (Thread τ)
  clock : Nat

/-- `Get`, from one access of shared memory to the next. -/
def GetCall.step (sf : Singleflight) (cfg : Config τ) (s : System τ) (g : GetCall τ)
    (answer : Answer τ) : Option (Move τ) :=
  let moved (phase : GetPhase τ) : Move τ := { thread := .get { g with phase }, shared := s.shared }
  match g.phase with
  | .reading =>
    match cfg.read answer.reply (s.shared.entries g.key) with
    | .hit value source => some (moved (.returned (.ok (value, source))))
    | .negative => some (moved (.returned (.error cfg.policy.negativeError)))
    | .miss => some (moved .joining)
    | .failed err => some (moved (if cfg.policy.failOpen then .joining else .returned (.error err)))
  | .joining =>
    match sf.doChan (s.shared.group g.cache) g.key s.threads.length with
    | (some flight, group) =>
      some { moved (.waiting flight) with shared := s.shared.setGroup g.cache group }
    | (none, group) => some { moved (.waiting s.threads.length) with
        shared := s.shared.setGroup g.cache group
        spawned := [.flight ⟨g.cache, g.key, s.clock, .created⟩] }
  | .waiting flight =>
    match answer.canceled with
    | some cause => some (moved (.returned (.error cause)))
    | none =>
      match s.threads[flight]? with
      | some (.flight ⟨_, _, _, .finished result⟩) => some (moved (.returned result))
      | _ => none
  | .returned _ => none

/-- What the flight returns after its write. -/
def Load.result (load : Load τ) (failOpen : Bool) (writeErr : Option Error) : Result τ :=
  match load.outcome, writeErr with
  | .ok value, none => .ok (value, ⟨none, some load.startedAt⟩)
  | .ok value, some err => if failOpen then .ok (value, ⟨none, some load.startedAt⟩) else .error err
  | .error loadErr, none => .error loadErr
  | .error loadErr, some err => if failOpen then .error loadErr else .error (.joined loadErr err)

/-- The envelope that a flight writes. -/
def Load.envelope (cfg : Config τ) (load : Load τ) : Except Error (List UInt8) :=
  match load.outcome with
  | .ok value => (cfg.codec.encode value).map (envelopeValue :: ·)
  | .error _ => .ok [envelopeNegative]

/-- `storeIfCurrent` and `storeNegativeIfCurrent` up to the call of the backend, in `storing`. -/
def Load.check (cfg : Config τ) (load : Load τ) (current : UInt64) : FlightPhase τ :=
  if current ≠ load.generation then .unlocking load none
  else
    match load.envelope cfg with
    | .error err => .unlocking load (some err)
    | .ok envelope =>
      if cfg.versioned && load.version.isNone then .unlocking load none else .writing load envelope

/-- The version at the backend is the one that the flight has read. -/
def Load.admitted (cfg : Config τ) (load : Load τ) (current : UInt64) : Bool :=
  !cfg.versioned || load.version == some current

/-- The function of a flight, from one access of shared memory to the next. -/
def Flight.step (sf : Singleflight) (cfg : Config τ) (s : System τ) (index : Nat) (f : Flight τ)
    (answer : Answer τ) : Option (Move τ) :=
  let moved (phase : FlightPhase τ) : Move τ :=
    { thread := .flight { f with phase }, shared := s.shared }
  let stripe := mutationStripeIndex f.key
  match f.phase with
  | .created => some (moved (.counted (s.shared.generation f.cache stripe)))
  | .counted generation =>
    match cfg.read answer.reply (s.shared.entries f.key) with
    | .hit value source => some (moved (.finishing (.ok (value, source))))
    | .negative => some (moved (.finishing (.error cfg.policy.negativeError)))
    | .miss => some (moved (.missed generation))
    | .failed err =>
      some (moved (if cfg.policy.failOpen then .missed generation else .finishing (.error err)))
  | .missed generation =>
    if !cfg.versioned then some (moved (.ready generation none))
    else
      match answer.reply with
      | .ok => some (moved (.ready generation (some (s.shared.versions f.key))))
      | .fail err _ =>
        some (moved
          (if cfg.policy.failOpen then .ready generation none else .finishing (.error err)))
  | .ready generation version => some (moved (.loading generation version s.clock))
  | .loading generation version startedAt =>
    let load : Load τ := ⟨generation, version, startedAt, answer.loaded⟩
    match answer.loaded with
    | .ok _ => some (moved (.storing load))
    | .error err =>
      some (moved (if cfg.policy.negative err then .storing load else .finishing (.error err)))
  | .storing load =>
    match s.shared.lock f.cache stripe with
    | some _ => none
    | none => some {
        thread := .flight { f with phase := load.check cfg (s.shared.generation f.cache stripe) }
        shared := s.shared.setLock f.cache stripe (some index) }
  | .writing load envelope =>
    if answer.reply.applied && load.admitted cfg (s.shared.versions f.key) then some {
      thread := .flight { f with phase := .unlocking load answer.reply.error? }
      shared := s.shared.write f.key ⟨envelope, s.clock, some load.startedAt⟩
      output := .stores f.cache f.key f.createdAt load.startedAt }
    else some (moved (.unlocking load answer.reply.error?))
  | .unlocking load writeErr => some {
      thread := .flight { f with phase := .finishing (load.result cfg.policy.failOpen writeErr) }
      shared := s.shared.setLock f.cache stripe none }
  | .finishing result => some {
      thread := .flight { f with phase := .finished result }
      shared := s.shared.setGroup f.cache (sf.complete (s.shared.group f.cache) f.key index) }
  | .finished _ => none

/-- A mutation after its stripes were mutated: what it calls of the backend. -/
def Mutation.act (cfg : Config τ) (s : System τ) (m : Mutation τ) (reply : Reply) :
    MutationPhase × Shared :=
  let unlock (result : Except Error Answered) : MutationPhase :=
    .unlocking (lockStripes m.keys).reverse result
  match m.kind with
  | .set value =>
    match cfg.codec.encode value with
    | .error err => (unlock (.error err), s.shared)
    | .ok payload =>
      if cfg.versioned then
        match reply with
        | .fail err _ => (unlock (.error err), s.shared)
        | .ok => (.setting (s.shared.versions (m.keys.headD "")), s.shared)
      else
        (unlock (match reply.error? with | none => .ok .done | some err => .error err),
          if reply.applied then
            s.shared.write (m.keys.headD "") ⟨envelopeValue :: payload, s.clock, none⟩
          else s.shared)
  | .invalidate =>
    (unlock (match reply.error? with
        | none => .ok (.count (s.shared.deleted m.keys))
        | some err => .error err),
      if reply.applied then s.shared.delete m.keys else s.shared)
  | .observe => (unlock (.ok .done), s.shared)
  | .version _ =>
    (unlock (match m.state with | some state => .ok (.state state) | none => .ok .done), s.shared)

/-- The last call of a versioned `Set`. -/
def Mutation.setIfVersion (cfg : Config τ) (s : System τ) (m : Mutation τ) (value : τ)
    (version : UInt64) (reply : Reply) : Except Error Answered × Shared :=
  let key := m.keys.headD ""
  match cfg.codec.encode value with
  | .error err => (.error err, s.shared)
  | .ok payload =>
    (match reply.error? with
      | some err => .error err
      | none => if s.shared.versions key = version then .ok .done else .error .errStaleWrite,
      if reply.applied && s.shared.versions key == version then
        s.shared.write key ⟨envelopeValue :: payload, s.clock, none⟩
      else s.shared)

/-- `InvalidateVersion` up to its answer of the backend. -/
def Mutation.apply (s : System τ) (m : Mutation τ) (version : UInt64) (reply : Reply) : Move τ :=
  let key := m.keys.headD ""
  let (state, shared) := s.shared.applyInvalidation key version
  let shared := if reply.applied then shared else s.shared
  let output : Observation := if reply.applied && state == .applied then .applied key else .silent
  match reply.error? with
  | some err =>
    { thread := .mutation { m with phase := .returned s.clock (.error err) }, shared, output }
  | none =>
    match state with
    | .stale =>
      let phase := .returned s.clock (.ok (.state .stale))
      { thread := .mutation { m with phase }, shared, output }
    | state =>
      let phase := .locking (lockStripes m.keys)
      { thread := .mutation { m with state := some state, phase }, shared, output }

/-- A mutation, from one access of shared memory to the next. -/
def Mutation.step (sf : Singleflight) (cfg : Config τ) (s : System τ) (index : Nat) (m : Mutation τ)
    (answer : Answer τ) : Option (Move τ) :=
  let moved (phase : MutationPhase) (shared : Shared) : Move τ :=
    { thread := .mutation { m with phase }, shared }
  match m.phase with
  | .refused _ => none
  | .applying =>
    match m.kind with
    | .version version => some (m.apply s version answer.reply)
    | _ => none
  | .locking [] => some (moved (.bumping (lockStripes m.keys)) s.shared)
  | .locking (stripe :: todo) =>
    match s.shared.lock m.cache stripe with
    | some _ => none
    | none => some (moved (.locking todo) (s.shared.setLock m.cache stripe (some index)))
  | .bumping [] => some (moved (.forgetting m.keys) s.shared)
  | .bumping (stripe :: todo) => some { moved (.bumping todo) (s.shared.bump m.cache stripe) with
      output := .bumps m.cache stripe }
  | .forgetting [] => some (moved .acting s.shared)
  | .forgetting (key :: todo) => some (moved (.forgetting todo)
      (s.shared.setGroup m.cache (sf.forget (s.shared.group m.cache) key)))
  | .acting => some (moved (m.act cfg s answer.reply).1 (m.act cfg s answer.reply).2)
  | .setting version =>
    match m.kind with
    | .set value =>
      let (result, shared) := m.setIfVersion cfg s value version answer.reply
      some (moved (.unlocking (lockStripes m.keys).reverse result) shared)
    | _ => none
  | .unlocking [] result => some (moved (.returned s.clock result) s.shared)
  | .unlocking (stripe :: todo) result =>
    some (moved (.unlocking todo result) (s.shared.setLock m.cache stripe none))
  | .returned _ _ => none

/-- One step of the thread at the index; each cache has its own configuration. -/
def Thread.step (sf : Singleflight) (cfg : Nat → Config τ) (s : System τ) (index : Nat)
    (answer : Answer τ) : Thread τ → Option (Move τ)
  | .get g => g.step sf (cfg g.cache) s answer
  | .flight f => f.step sf (cfg f.cache) s index answer
  | .mutation m => m.step sf (cfg m.cache) s index answer

/-! ## Calls -/

/-- The check of the arguments of `Get`. -/
def newGet (cache : Nat) (key : String) (clock : Nat) : GetCall τ :=
  ⟨cache, key, clock,
    if validateKey key then .reading else .returned
      (.error (.errInvalidOption "cache key is invalid"))⟩

/-- The checks of the arguments of a mutation. -/
def checkMutation (cfg : Config τ) (kind : Kind τ) (keys : List String) : MutationPhase :=
  let invalid : MutationPhase := .refused (.errInvalidOption "cache key is invalid")
  match kind with
  | .set _ =>
    if keys.all validateKey && keys.length == 1 then .locking (lockStripes keys) else invalid
  | .invalidate =>
    if keys = [] then .refused (.errInvalidOption "no keys")
    else if cfg.versioned then .refused .errVersionRequired
    else if keys.all validateKey then .locking (lockStripes keys) else invalid
  | .observe =>
    if keys = [] then .refused (.errInvalidOption "no keys")
    else if keys.all validateKey then .locking (lockStripes keys) else invalid
  | .version version =>
    if !(keys.all validateKey && keys.length == 1) then invalid
    else if version = 0 then .refused (.errInvalidOption "version is zero")
    else if !cfg.versioned then .refused .errVersioningUnsupported
    else .applying

/-- What may happen next. -/
inductive Input (τ : Type) where
  | get (cache : Nat) (key : String)
  | mutate (cache : Nat) (kind : Kind τ) (keys : List String)
  | step (index : Nat) (answer : Answer τ)
  | expire (key : String)

/-- The system after a step of the thread at the index. -/
def System.moved (s : System τ) (index : Nat) (move : Move τ) : System τ :=
  ⟨move.shared, s.threads.set index move.thread ++ move.spawned, s.clock + 1⟩

/-- One input. -/
def System.exec (sf : Singleflight) (cfg : Nat → Config τ) (s : System τ) :
    Input τ → Observation × System τ
  | .get cache key => (.silent, { s with
      threads := s.threads ++ [.get (newGet cache key s.clock)], clock := s.clock + 1 })
  | .mutate cache kind keys => (.silent, { s with
      threads := s.threads ++ [.mutation ⟨cache, kind, keys, s.clock, none,
        checkMutation (cfg cache) kind keys⟩]
      clock := s.clock + 1 })
  | .step index answer =>
    match s.threads[index]?.bind (Thread.step sf cfg s index answer) with
    | none => (.silent, { s with clock := s.clock + 1 })
    | some move => (move.output, s.moved index move)
  | .expire key => (.silent, { s with shared := s.shared.delete [key], clock := s.clock + 1 })

/-- New caches over an empty backend. -/
def System.new : System τ :=
  ⟨⟨fun _ => none, fun _ => 0, fun _ _ => 0, fun _ _ => none, fun _ _ => none⟩, [], 0⟩

/-- The machine. -/
def machine (sf : Singleflight) (cfg : Nat → Config τ) :
    Machine (System τ) (Input τ) Observation where
  init s := s = .new
  exec := System.exec sf cfg
  may _ _ _ := True

end Keelith.Cache

import Keelith.Lib.Run
import Keelith.Projection.Store

/-!
# Reads of a replica

`Replica.Get` (`programmable/projection/replica.go`) over the memory store: checkpoint, value,
checkpoint, without a lock, again until both checkpoints have one generation.

- **A call** (`ReadCall`): the key, its encoding and the settings of its options.
- **A reader** (`Reader`): where a call of `Get` is. Each of its three store reads is a step
  (`ReadStep`); a context can be canceled before each of them.
- **Writers** (`Write`): snapshot transactions and deltas, of any projection.
- **The system** (`readSystem`): one reader and any number of writers in any order.

The generation of a projection counts its visible changes modulo 2^64 (`WriteEffect`), so between
two checkpoints of one generation there was none, or 2^64 of them.
`get_generation_consistent`: with fewer than 2^64 changes between the two checkpoint reads, the
answer, its decoder and its freshness are those of one generation.
`Wrapped.answer_stale`: after 2^64 changes the freshness is that of another generation.

The key encoder and the decoders are parameters; a nil one, a nil store and a nil clock are refused
by `NewReplica` and have no counterpart here.
-/

namespace Keelith.Projection

open Memory

/-! ## Replicas -/

/-- `ValueDecoder`, with the text of its error. -/
abbrev ValueDecoder (V : Type) := List UInt8 → Except String V

/-- `Replica`; its clock is an argument of the step that reads it. -/
structure Replica (K V : Type) where
  schema : Schema
  encodeKey : K → Except String (List UInt8)
  decoders : Map String (ValueDecoder V)

/-- `readSettings`. -/
structure ReadSettings where
  maxFreshness : Duration := 0
  requireFresh : Bool := false
  deriving DecidableEq

def requireFreshWithin (maximum : Duration) : Except Error ReadSettings :=
  if maximum ≤ 0 then .error (.wrapped .errInvalidReplica "freshness bound")
  else .ok { maxFreshness := maximum, requireFresh := true }

/-- The loop of `Get` over its options from `index` on: `RequireFreshWithin` is the only one, `none`
is a nil option. -/
def applyOptions (index : Nat) (settings : ReadSettings) :
    List (Option Duration) → Except Error ReadSettings
  | [] => .ok settings
  | none :: _ => .error (.wrapped .errInvalidReplica s!"read option {index} is nil")
  | some maximum :: rest =>
    match requireFreshWithin maximum with
    | .error err => .error err
    | .ok settings => applyOptions (index + 1) settings rest

/-! ## One call of Get -/

section

variable {K V : Type} (replica : Replica K V)

/-- A call of `Get` whose key is encoded. -/
structure ReadCall where
  key : K
  encoded : List UInt8
  settings : ReadSettings
  encodes : replica.encodeKey key = .ok encoded

/-- Where a call of `Get` is. -/
inductive Reader where
  | idle
  /-- At the head of the loop. -/
  | looping (call : ReadCall replica)
  /-- After the first checkpoint. -/
  | checked (call : ReadCall replica) (before : Checkpoint)
  /-- After the value. -/
  | fetched (call : ReadCall replica) (before : Checkpoint) (payload : Option (List UInt8))

/-- The steps of `Get`, each with the context as it finds it. -/
inductive ReadStep (K : Type) where
  /-- The call, up to the loop. -/
  | call (ctx : Context) (key : K) (options : List (Option Duration))
  /-- The check of the context at the head of the loop, and the first checkpoint. -/
  | before (ctx inner : Context)
  | get (ctx : Context)
  /-- The second checkpoint and the rest, with the time of the clock. -/
  | after (ctx : Context) (now : Time)

/-- A result that `Get` returns, if it does, and where the reader is then. -/
abbrev Progress := Option (Except Error (Option V)) × Reader replica

namespace Replica

variable {replica}

/-- `Get` returns. -/
def returns (result : Except Error (Option V)) : Progress replica := (some result, .idle)

/-- `Get` goes on. -/
def goesOn (reader : Reader replica) : Progress replica := (none, reader)

variable (replica)

/-- `Get` up to its loop. -/
def call (ctx : Context) (key : K) (options : List (Option Duration)) : Progress replica :=
  match validateContext ctx with
  | .error err => returns (.error err)
  | .ok () =>
    match applyOptions 0 {} options with
    | .error err => returns (.error err)
    | .ok settings =>
      match h : replica.encodeKey key with
      | .error text => returns (.error (.external s!"projection: encode key: {text}"))
      | .ok encoded => goesOn (.looping ⟨key, encoded, settings, h⟩)

/-- The loop of `Get` up to its first checkpoint. -/
def before (store : Store) (ctx inner : Context) (call : ReadCall replica) : Progress replica :=
  match validateContext ctx with
  | .error err => returns (.error err)
  | .ok () =>
    match store.checkpoint inner replica.schema.id with
    | .error err => returns (.error err)
    | .ok none => returns (.ok none)
    | .ok (some before) =>
      match replica.schema.accepts before.schema with
      | .error err => returns (.error err)
      | .ok () => goesOn (.checked call before)

/-- The value. -/
def get (store : Store) (ctx : Context) (call : ReadCall replica) (before : Checkpoint) :
    Progress replica :=
  match store.get ctx replica.schema.id call.encoded with
  | .error err => returns (.error err)
  | .ok payload => goesOn (.fetched call before payload)

/-- What `Get` returns once the generations agree. -/
def answer (settings : ReadSettings) (before after : Checkpoint) (payload : Option (List UInt8))
    (now : Time) : Except Error (Option V) :=
  if settings.requireFresh && after.freshness now > settings.maxFreshness then
    .error (.stale replica.schema.id after.cursor settings.maxFreshness (after.freshness now))
  else match payload with
    | none => .ok none
    | some payload =>
      match replica.decoders.lookup before.schema.fingerprint with
      | none => .error (.wrapped .errInvalidReplica "decoder for checkpoint schema")
      | some decode =>
        match decode payload with
        | .error text => .error (.external s!"projection: decode value: {text}")
        | .ok value => .ok (some value)

/-- The loop of `Get` from its second checkpoint on. -/
def after (store : Store) (ctx : Context) (now : Time) (call : ReadCall replica)
    (before : Checkpoint) (payload : Option (List UInt8)) : Progress replica :=
  match store.checkpoint ctx replica.schema.id with
  | .error err => returns (.error err)
  | .ok none => goesOn (.looping call)
  | .ok (some after) =>
    if before.generation != after.generation then goesOn (.looping call)
    else returns (replica.answer call.settings before after payload now)

/-- A step of the reader; a step that is not its next one does nothing. -/
def step (store : Store) (reader : Reader replica) : ReadStep K → Progress replica
  | .call ctx key options =>
    match reader with
    | .idle => replica.call ctx key options
    | _ => goesOn reader
  | .before ctx inner =>
    match reader with
    | .looping call => replica.before store ctx inner call
    | _ => goesOn reader
  | .get ctx =>
    match reader with
    | .checked call before => replica.get store ctx call before
    | _ => goesOn reader
  | .after ctx now =>
    match reader with
    | .fetched call before payload => replica.after store ctx now call before payload
    | _ => goesOn reader

end Replica

end

/-! ## Writers -/

/-- A call of a writer; a transaction is named by its place. -/
inductive Write where
  | beginSnapshot (ctx : Context) (schema : Schema)
  | stage (txn : Nat) (mutation : Mutation)
  | abort (txn : Nat)
  | commit (txn : Nat) (ctx : Context) (now : Time) (cursor : Cursor) (sourceTime : Time)
  | applyDelta (ctx : Context) (now : Time) (batch : DeltaBatch)

/-- The store and its transactions. -/
structure Written where
  store : Store
  txns : List SnapshotTxn

/-- The step of a writer. -/
def Written.exec (w : Written) : Write → Written
  | .beginSnapshot ctx schema =>
    match w.store.beginSnapshot ctx schema with
    | .error _ => w
    | .ok txn => { w with txns := w.txns ++ [txn] }
  | .stage txn mutation =>
    { w with txns := w.txns.modify txn fun txn =>
        match txn.stage mutation with
        | .error _ => txn
        | .ok staged => staged }
  | .abort txn => { w with txns := w.txns.modify txn SnapshotTxn.abort }
  | .commit txn ctx now cursor sourceTime =>
    match w.txns[txn]? with
    | none => w
    | some current =>
      match current.commit w.store ctx now cursor sourceTime with
      | (_, committed, store) => { store, txns := w.txns.set txn committed }
  | .applyDelta ctx now batch => { w with store := (w.store.applyDelta ctx now batch).2 }

/-- All that a writer can do to the visible generation of a projection. -/
inductive WriteEffect (current : Option State) : Option State → Prop
  | unchanged : WriteEffect current current
  | published (next : State)
      (hgeneration : next.generation = SnapshotTxn.currentGeneration current + 1) :
      WriteEffect current (some next)

variable {store : Store}

theorem lookup_withState_effect {id written : ProjectionID} {next : State}
    (hgeneration : next.generation =
      SnapshotTxn.currentGeneration (store.states.lookup written) + 1) :
    WriteEffect (store.states.lookup id) ((store.withState written next).states.lookup id) := by
  rw [Store.withState, Map.lookup_insert_eq]
  split
  next h => subst h; exact .published next hgeneration
  next => exact .unchanged

theorem exec_writeEffect (w : Written) (write : Write) (id : ProjectionID) :
    WriteEffect (w.store.states.lookup id) ((w.exec write).store.states.lookup id) := by
  cases write with
  | beginSnapshot ctx schema =>
    simp only [Written.exec]
    split <;> exact .unchanged
  | stage | abort => exact .unchanged
  | commit txn ctx now cursor sourceTime =>
    simp only [Written.exec]
    split
    · exact .unchanged
    next current _ =>
      have heffect := commit_effect current w.store ctx now cursor sourceTime
      generalize current.commit w.store ctx now cursor sourceTime = result at heffect ⊢
      cases heffect with
      | failed => exact .unchanged
      | published => exact lookup_withState_effect rfl
  | applyDelta ctx now batch =>
    simp only [Written.exec]
    have heffect := applyDelta_effect w.store ctx now batch
    generalize w.store.applyDelta ctx now batch = result at heffect ⊢
    cases heffect with
    | failed | replayed => exact .unchanged
    | applied hlookup => exact lookup_withState_effect (by rw [hlookup]; rfl)

/-! ## A reader among writers -/

section

variable {K V : Type} (replica : Replica K V)

/-- The store with its writers and a reader. -/
structure ReadSystem where
  written : Written
  reader : Reader replica

/-- A step of the reader or of a writer. -/
inductive ReadInput (K : Type) where
  | read (step : ReadStep K)
  | write (write : Write)

/-- One reader and any writers, from an empty store. -/
def readSystem : Machine (ReadSystem replica) (ReadInput K) (Option (Except Error (Option V))) where
  init s := s.written = { store := newStore, txns := [] } ∧ s.reader = .idle
  exec s
    | .read step =>
      let progress := replica.step s.written.store s.reader step
      (progress.1, { s with reader := progress.2 })
    | .write write => (none, { s with written := s.written.exec write })
  may _ _ _ := True

variable {replica}

/-- The visible generation of the replica's projection. -/
def ReadSystem.visible (s : ReadSystem replica) : Option State :=
  s.written.store.states.lookup replica.schema.id

/-- A step of the system, on the visible generation. -/
theorem exec_visible (s : ReadSystem replica) (i : ReadInput K) :
    WriteEffect s.visible ((readSystem replica).exec s i).2.visible := by
  cases i with
  | read step => exact .unchanged
  | write write => exact exec_writeEffect s.written write replica.schema.id

/-! ## What happens between the two checkpoints -/

/-- An event of the system. -/
abbrev ReadEvent (replica : Replica K V) :=
  Event (ReadSystem replica) (ReadInput K) (Option (Except Error (Option V)))

/-- The event reads the first checkpoint of an iteration. -/
def ReadsFirst (e : ReadEvent replica) : Prop :=
  match e.pre.reader, e.input with
  | .looping _, .read (.before _ _) => True
  | _, _ => False

/-- How often the visible generation changes. -/
def changes (events : List (ReadEvent replica)) : Nat :=
  events.countP fun e => e.post.visible != e.pre.visible

variable {e : ReadEvent replica} {events : List (ReadEvent replica)} {payload : Option (List UInt8)}

theorem changes_snoc_eq
    (h : e.post.visible = e.pre.visible) : changes (events ++ [e]) = changes events := by
  simp [changes, h]

theorem changes_snoc_ne
    (h : e.post.visible ≠ e.pre.visible) : changes (events ++ [e]) = changes events + 1 := by
  simp [changes, h]

/-- The first checkpoint of the current iteration found `start`, and `between` happened since. -/
structure Iteration (history : List (ReadEvent replica)) (s : ReadSystem replica) (start : State)
    (between : List (ReadEvent replica)) : Prop where
  split : ∃ earlier first, history = earlier ++ first :: between ∧ ReadsFirst first ∧
    first.pre.visible = some start
  only : ∀ e ∈ between, ¬ ReadsFirst e
  current : ∃ state, s.visible = some state ∧
    state.generation.toNat = (start.generation.toNat + changes between) % 2 ^ 64 ∧
    (changes between = 0 → state = start)

variable {history : List (ReadEvent replica)} {i : ReadInput K} {s : ReadSystem replica}
  {call : ReadCall replica}

theorem Iteration.snoc {start : State}
    {between : List (ReadEvent replica)} (h : Iteration history s start between)
    (hi : ¬ ReadsFirst ((readSystem replica).event s i)) :
    Iteration (history ++ [(readSystem replica).event s i]) ((readSystem replica).exec s i).2 start
      (between ++ [(readSystem replica).event s i]) where
  split := by
    obtain ⟨earlier, first, rfl, hfirst⟩ := h.split
    exact ⟨earlier, first, by simp, hfirst⟩
  only := forall_mem_snoc.mpr ⟨h.only, hi⟩
  current := by
    obtain ⟨state, hstate, hgeneration, hzero⟩ := h.current
    have heffect := exec_visible s i
    generalize hafter : ((readSystem replica).exec s i).2.visible = after at heffect ⊢
    rw [hstate] at heffect
    cases heffect with
    | unchanged =>
      rw [changes_snoc_eq (by rw [Machine.event_post, hafter, Machine.event_pre, hstate])]
      exact ⟨state, rfl, hgeneration, hzero⟩
    | published next hnext =>
      have hne : next ≠ state := by
        rintro rfl
        exact succ_ne_self _ hnext.symm
      rw [changes_snoc_ne (by
        rw [Machine.event_post, hafter, Machine.event_pre, hstate]
        exact fun h => hne (Option.some.inj h))]
      refine ⟨next, rfl, ?_, by omega⟩
      rw [hnext, SnapshotTxn.currentGeneration, UInt64.toNat_add, hgeneration, UInt64.toNat_one,
        Nat.mod_add_mod, Nat.add_assoc]

/-- What the reader knows. -/
def ReaderInv (history : List (ReadEvent replica)) (s : ReadSystem replica) : Prop :=
  match s.reader with
  | .idle | .looping _ => True
  | .checked _ before =>
    ∃ start between, Iteration history s start between ∧ before = start.checkpoint
  | .fetched call before payload =>
    ∃ start between, Iteration history s start between ∧ before = start.checkpoint ∧
      (changes between = 0 → payload = start.values.lookup call.encoded)

theorem ReaderInv.init (s : ReadSystem replica) (h : (readSystem replica).init s) :
    ReaderInv [] s := by
  rw [ReaderInv, h.2]
  trivial

theorem not_readsFirst
    (h : ∀ call, s.reader ≠ .looping call) : ¬ ReadsFirst ((readSystem replica).event s i) := by
  unfold ReadsFirst
  split
  next call _ _ hreader _ => exact absurd hreader (h call)
  next => exact id

/-- A step that leaves the reader where it is. -/
theorem ReaderInv.stays (h : ReaderInv history s)
    (hreader : ((readSystem replica).exec s i).2.reader = s.reader) :
    ReaderInv (history ++ [(readSystem replica).event s i]) ((readSystem replica).exec s i).2 := by
  unfold ReaderInv at h ⊢
  rw [hreader]
  split at h
  · trivial
  · trivial
  next call before hs =>
    obtain ⟨start, between, hiteration, hbefore⟩ := h
    exact ⟨start, _, hiteration.snoc (not_readsFirst (by simp [hs])), hbefore⟩
  next call before payload hs =>
    obtain ⟨start, between, hiteration, hbefore, hpayload⟩ := h
    refine ⟨start, _, hiteration.snoc (not_readsFirst (by simp [hs])), hbefore, fun hzero => ?_⟩
    refine hpayload (Nat.eq_zero_of_le_zero ?_)
    rw [← hzero, changes, changes, List.countP_append]
    exact Nat.le_add_right _ _

/-- All that a step of the reader can do. -/
inductive ReadEffect (s : ReadSystem replica) : ReadStep K → Progress replica → Prop
  | stays (step : ReadStep K) : ReadEffect s step (none, s.reader)
  | failed (step : ReadStep K) (err : Error) : ReadEffect s step (some (.error err), .idle)
  /-- The call begins, or its loop does again. -/
  | loops (step : ReadStep K) (call : ReadCall replica) : ReadEffect s step (none, .looping call)
  | uninitialized (ctx inner : Context) (hvisible : s.visible = none) :
      ReadEffect s (.before ctx inner) (some (.ok none), .idle)
  | checked (ctx inner : Context) {call : ReadCall replica} (hreader : s.reader = .looping call)
      {state : State} (hvisible : s.visible = some state) :
      ReadEffect s (.before ctx inner) (none, .checked call state.checkpoint)
  | fetched (ctx : Context) {call : ReadCall replica} {before : Checkpoint}
      (hreader : s.reader = .checked call before) :
      ReadEffect s (.get ctx)
        (none, .fetched call before (s.visible.bind fun state => state.values.lookup call.encoded))
  | answered (ctx : Context) (now : Time) {call : ReadCall replica} {before : Checkpoint}
      {payload : Option (List UInt8)} (hreader : s.reader = .fetched call before payload)
      {state : State} (hvisible : s.visible = some state)
      (hgeneration : before.generation = state.generation) :
      ReadEffect s (.after ctx now)
        (some (replica.answer call.settings before state.checkpoint payload now), .idle)

/-- What `Store.Get` returns. -/
theorem get_ok {ctx : Context} {id : ProjectionID} {key : List UInt8}
    (h : store.get ctx id key = .ok payload) :
    payload = (store.states.lookup id).bind fun state => state.values.lookup key := by
  unfold Store.get at h
  cases hctx : validateContext ctx with
  | error err => rw [hctx] at h; cases h
  | ok _ =>
    cases hid : validateID id with
    | error err => rw [hctx, hid] at h; cases h
    | ok _ =>
      cases hkey : (upsert key []).validate with
      | error err => rw [hctx, hid, hkey] at h; cases h
      | ok _ =>
        rw [hctx, hid, hkey] at h
        cases hlookup : store.states.lookup id with
        | none | some state => rw [hlookup] at h; cases h; rfl

theorem call_effect (s : ReadSystem replica) (ctx : Context) (key : K)
    (options : List (Option Duration)) :
    ReadEffect s (.call ctx key options) (replica.call ctx key options) := by
  unfold Replica.call
  split
  · exact .failed _ _
  split
  · exact .failed _ _
  split
  · exact .failed _ _
  · exact .loops _ _

theorem before_effect (hreader : s.reader = .looping call) (ctx inner : Context) :
    ReadEffect s (.before ctx inner) (replica.before s.written.store ctx inner call) := by
  unfold Replica.before
  split
  · exact .failed _ _
  split
  · exact .failed _ _
  next hcheckpoint => exact .uninitialized _ _ (Option.map_eq_none_iff.mp
    (checkpoint_ok hcheckpoint).symm)
  next before hcheckpoint =>
    split
    · exact .failed _ _
    · obtain ⟨state, hstate, rfl⟩ := Option.map_eq_some_iff.mp (checkpoint_ok hcheckpoint).symm
      exact .checked _ _ hreader hstate

theorem get_effect {before : Checkpoint} (hreader : s.reader = .checked call before)
    (ctx : Context) : ReadEffect s (.get ctx) (replica.get s.written.store ctx call before) := by
  unfold Replica.get
  split
  · exact .failed _ _
  next payload hget =>
    rw [get_ok hget]
    exact .fetched _ hreader

theorem after_effect {before : Checkpoint} (hreader : s.reader = .fetched call before payload)
    (ctx : Context) (now : Time) :
    ReadEffect s (.after ctx now) (replica.after s.written.store ctx now call before payload) := by
  unfold Replica.after
  split
  · exact .failed _ _
  · exact .loops _ _
  next after hcheckpoint =>
    split
    · exact .loops _ _
    next hgeneration =>
      obtain ⟨state, hstate, rfl⟩ := Option.map_eq_some_iff.mp (checkpoint_ok hcheckpoint).symm
      exact .answered _ _ hreader hstate (by simpa [State.checkpoint] using hgeneration)

theorem step_effect (s : ReadSystem replica) (step : ReadStep K) :
    ReadEffect s step (replica.step s.written.store s.reader step) := by
  cases step with
  | call ctx key options =>
    simp only [Replica.step]
    split
    · exact call_effect s ctx key options
    · exact .stays _
  | before ctx inner =>
    simp only [Replica.step]
    split
    next call hreader => exact before_effect hreader ctx inner
    next => exact .stays _
  | get ctx =>
    simp only [Replica.step]
    split
    next call before hreader => exact get_effect hreader ctx
    next => exact .stays _
  | after ctx now =>
    simp only [Replica.step]
    split
    next call before payload hreader => exact after_effect hreader ctx now
    next => exact .stays _

theorem ReaderInv.read (h : ReaderInv history s) (step : ReadStep K) :
    ReaderInv (history ++ [(readSystem replica).event s (.read step)])
      ((readSystem replica).exec s (.read step)).2 := by
  have heffect := step_effect s step
  generalize hprogress : replica.step s.written.store s.reader step = progress at heffect
  have hreader : ((readSystem replica).exec s (.read step)).2.reader = progress.2 := by
    rw [← hprogress]; rfl
  cases heffect with
  | stays => exact h.stays hreader
  | failed | loops | uninitialized | answered => rw [ReaderInv, hreader]; trivial
  | checked ctx inner hs hvisible =>
    rename_i call state
    rw [ReaderInv, hreader]
    have hfirst : ReadsFirst ((readSystem replica).event s (.read (.before ctx inner))) := by
      unfold ReadsFirst
      rw [Machine.event_pre, hs]
      trivial
    exact ⟨state, [],
      { split := ⟨history, _, rfl, hfirst, hvisible⟩
        only := fun _ he => by cases he
        current := ⟨state, hvisible, (Nat.mod_eq_of_lt state.generation.toNat_lt).symm,
          fun _ => rfl⟩ },
      rfl⟩
  | fetched ctx hs =>
    rw [ReaderInv, hreader]
    rw [ReaderInv, hs] at h
    obtain ⟨start, between, hiteration, hbefore⟩ := h
    refine ⟨start, _, hiteration.snoc (not_readsFirst (by simp [hs])), hbefore, fun hzero => ?_⟩
    obtain ⟨state, hstate, -, hsame⟩ := hiteration.current
    rw [changes_snoc_eq rfl] at hzero
    rw [hstate, Option.bind_some, hsame hzero]

theorem readerInv_run (h : (readSystem replica).Run history s) : ReaderInv history s := by
  refine Machine.Run.invariant (I := ReaderInv) ReaderInv.init (fun history s i hinv _ => ?_) h
  cases i with
  | read step => exact hinv.read step
  | write write => exact hinv.stays rfl

/-! ## Answers -/

/-- The answer of a call at the time `now` is that of one generation. -/
structure AnswerOf (call : ReadCall replica) (now : Time) (state : State) (answer : Option V) :
    Prop where
  fresh : call.settings.requireFresh = true →
    state.checkpoint.freshness now ≤ call.settings.maxFreshness
  value : match answer with
    | none => state.values.lookup call.encoded = none
    | some value => ∃ payload decode, state.values.lookup call.encoded = some payload ∧
        replica.decoders.lookup state.schema.fingerprint = some decode ∧
        decode payload = .ok value

theorem answerOf_answer {state : State} {now : Time} {answer : Option V}
    (h : replica.answer call.settings state.checkpoint state.checkpoint
      (state.values.lookup call.encoded) now = .ok answer) : AnswerOf call now state answer := by
  unfold Replica.answer at h
  split at h
  · cases h
  next hfresh =>
    have hbound : call.settings.requireFresh = true →
        state.checkpoint.freshness now ≤ call.settings.maxFreshness := by
      intro hrequire
      simpa [hrequire] using hfresh
    split at h
    next hlookup => cases h; exact ⟨hbound, hlookup⟩
    next payload hlookup =>
      split at h
      · cases h
      next decode hdecode =>
        split at h
        · cases h
        next value hvalue => cases h; exact ⟨hbound, payload, decode, hlookup, hdecode, hvalue⟩

/-- **Reads are of one generation.** When `Get` returns without an error on an initialized
projection, it has read the first checkpoint of its last iteration at `first`; if fewer than
2^64 generations were published since, then its answer, the decoder and the freshness are those
of the generation that is visible at both checkpoints. -/
theorem get_generation_consistent {history : List (ReadEvent replica)} {s : ReadSystem replica}
    (h : (readSystem replica).Run history s) {i : ReadInput K} {answer : Option V}
    (hanswer : ((readSystem replica).exec s i).1 = some (.ok answer))
    (hinitialized : s.visible ≠ none) : ∃ ctx now call before payload earlier first between,
      i = .read (.after ctx now) ∧ s.reader = .fetched call before payload ∧
      history = earlier ++ first :: between ∧ ReadsFirst first ∧ (∀ e ∈ between, ¬ ReadsFirst e) ∧
      (changes between < 2 ^ 64 → ∃ state, first.pre.visible = some state ∧ s.visible = some state ∧
        AnswerOf call now state answer) := by
  cases i with
  | write write => cases hanswer
  | read step =>
    have hinv := readerInv_run h
    have heffect := step_effect s step
    have houtput : (replica.step s.written.store s.reader step).1 = some (.ok answer) := hanswer
    generalize replica.step s.written.store s.reader step = progress at heffect houtput
    cases heffect with
    | stays | failed | loops | checked | fetched => cases houtput
    | uninitialized _ _ hvisible => exact absurd hvisible hinitialized
    | answered ctx now hs hvisible hgeneration =>
      rename_i call before payload state
      rw [ReaderInv, hs] at hinv
      obtain ⟨start, between, hiteration, rfl, hpayload⟩ := hinv
      obtain ⟨earlier, first, hhistory, hfirst, hstart⟩ := hiteration.split
      refine ⟨ctx, now, call, _, payload, earlier, first, between, rfl, hs, hhistory, hfirst,
        hiteration.only, fun hfew => ?_⟩
      obtain ⟨current, hcurrent, hcount, hsame⟩ := hiteration.current
      obtain rfl : state = current := Option.mem_unique hvisible hcurrent
      -- equal generations and fewer changes than the counter has values: no change at all
      have hzero : changes between = 0 := by
        have heq : start.generation = state.generation := hgeneration
        rw [← heq] at hcount
        omega
      obtain rfl : state = start := hsame hzero
      rw [hpayload hzero] at houtput
      exact ⟨state, hstart, hvisible, answerOf_answer (Option.some.inj houtput)⟩

end

namespace Wrapped

/-- A schema whose fingerprints are zeros. -/
def schema : Schema :=
  { id := "orders", fingerprint := String.ofList (List.replicate 64 '0'),
    keyFingerprint := String.ofList (List.replicate 64 '0'), compatibleFingerprints := ⟨[]⟩ }

/-- Keys and values are bytes. -/
def replica : Replica (List UInt8) (List UInt8) :=
  { schema, encodeKey := .ok, decoders := Finmap.singleton schema.fingerprint .ok }

def start : ReadSystem replica := { written := { store := newStore, txns := [] }, reader := .idle }

/-- A context that is not canceled. -/
def live : Context := ⟨none⟩

/-- A snapshot of one row, and a call of `Get` up to its second checkpoint. -/
def readRow : List (ReadInput (List UInt8)) :=
  [.write (.beginSnapshot live schema), .write (.stage 0 (upsert [1] [2])),
   .write (.commit 0 live 1 "a" 1), .read (.call live [1] [some 1]), .read (.before live live),
   .read (.get live)]

theorem run_start (inputs : List (ReadInput (List UInt8))) :
    (readSystem replica).Run ((readSystem replica).trace start inputs)
      ((readSystem replica).final start inputs) := by
  have hinit : (readSystem replica).init start := ⟨rfl, rfl⟩
  exact (Machine.Run.init hinit).extend (.of_forall (fun _ _ _ => trivial) _ _ _)

theorem readRow_consistent : ∃ (call : ReadCall replica) (state : State),
      ((readSystem replica).final start readRow).visible = some state ∧
      AnswerOf call 1 state (some [2]) := by
  have hanswer : ((readSystem replica).exec ((readSystem replica).final start readRow)
      (.read (.after live 1))).1 = some (.ok (some [2])) := by decide +kernel
  obtain ⟨ctx, now, call, before, payload, earlier, first, between, hinput, -,
    hhistory, -, -, hanswer⟩ :=
    get_generation_consistent (run_start readRow) hanswer (by decide +kernel)
  cases hinput
  have hfew : changes between ≤ 6 := by
    have hlength := congrArg List.length hhistory
    have hcount := List.countP_le_length (p := fun e => e.post.visible != e.pre.visible)
      (l := between)
    simp only [List.length_append, List.length_cons] at hlength
    rw [show ((readSystem replica).trace start readRow).length = 6 from rfl] at hlength
    exact hcount.trans (by omega)
  obtain ⟨state, -, hvisible, hof⟩ := hanswer (by omega)
  exact ⟨call, state, hvisible, hof⟩

/-- An empty snapshot, and a call of `Get` that asks for an age of at most 1 ns. A row is written
between its first checkpoint and its value. -/
def readOld : List (ReadInput (List UInt8)) :=
  [.write (.beginSnapshot live schema), .write (.commit 0 live 1 "a" 1),
   .read (.call live [1] [some 1]), .read (.before live live),
   .write (.applyDelta live 1
     { schema, previous := "a", cursor := "b", sourceTime := 1, mutations := [upsert [1] [2]] }),
   .read (.get live)]

/-- The `n`-th of the deltas that follow: they delete the row, from one cursor to another and
back. -/
def turn (n : Nat) : DeltaBatch :=
  { schema, previous := if n % 2 = 0 then "b" else "c", cursor := if n % 2 = 0 then "c" else "b",
    sourceTime := 100, mutations := [delete [1]] }

/-- The reader that waits for its second checkpoint with the old value. -/
def oldReader : Reader replica :=
  .fetched ⟨[1], [1], { maxFreshness := 1, requireFresh := true }, rfl⟩
    { schema, cursor := "a", generation := 1, sourceTime := 1, appliedAt := 1 } (some [2])

/-- A generation that is not the one of the answer: the row is old, or it is gone. -/
def Apart (state : State) : Prop := state.sourceTime = 1 ∨ state.values.lookup [1] = none

/-- The run after `n` of the deltas. -/
structure Turned (n : Nat) (history : List (ReadEvent replica)) (s : ReadSystem replica) :
    Prop where
  run : (readSystem replica).Run history s
  apart : ∀ e ∈ history, ∀ state, e.post.visible = some state → Apart state
  reader : s.reader = oldReader
  visible : ∃ state, s.visible = some state ∧ state.schema = schema ∧
    state.cursor = (turn n).previous ∧ state.generation = UInt64.ofNat (n + 2) ∧
    (0 < n → state.sourceTime = 100)

theorem turned_zero : ∃ history s, Turned 0 history s := by
  refine ⟨_, _, run_start readOld, fun e he state hstate => .inl ?_, rfl, _, rfl, rfl, rfl,
    rfl, by simp⟩
  have hold : ((readSystem replica).trace start readOld).all (fun e =>
      e.post.visible.all fun state => state.sourceTime == 1) = true := by decide +kernel
  have := List.all_eq_true.mp hold e he
  rw [hstate] at this
  simpa using this

theorem turn_valid (n : Nat) : (turn n).validate = .ok () := by
  rcases Nat.mod_two_eq_zero_or_one n with h | h <;> simp only [turn, h] <;> decide +kernel

theorem turn_cursor (n : Nat) : (turn n).cursor = (turn (n + 1)).previous := by
  have hodd : (n + 1) % 2 = 0 ↔ n % 2 ≠ 0 := by omega
  by_cases h : n % 2 = 0 <;> simp [turn, hodd, h]

theorem turn_advances (n : Nat) : (turn n).previous ≠ (turn n).cursor := by
  by_cases h : n % 2 = 0 <;> simp [turn, h]

/-- The generation that the `n`-th of the deltas publishes. -/
def afterTurn (n : Nat) (current : State) : State :=
  { schema, cursor := (turn n).cursor, generation := current.generation + 1, sourceTime := 100,
    appliedAt := 100, values := current.values.erase [1], lastDelta := deltaDigest (turn n),
    hasLastDelta := true }

variable {n : Nat}

theorem applyDelta_turn {current : State}
    (hlookup : store.states.lookup schema.id = some current) (hschema : current.schema = schema)
    (hcursor : current.cursor = (turn n).previous) :
    (store.applyDelta live 100 (turn n)).2 = store.withState schema.id (afterTurn n current) := by
  have hcompatible : compatibleSchema current.schema (turn n).schema = .ok () := by
    rw [hschema, compatibleSchema, if_neg (by simp [turn]), if_neg (by simp [turn])]
  have hother : ((turn n).previous == (turn n).cursor) = false := beq_false_of_ne (turn_advances n)
  have hnext : store.nextState 100 (turn n) = .ok (some (afterTurn n current)) := by
    rw [Store.nextState, show (turn n).schema.id = schema.id from rfl, hlookup]
    simp only [hcompatible, hother, hcursor, bne_self_eq_false]
    rfl
  rw [Store.applyDelta]
  simp only [turn_valid, hnext]
  rfl

theorem Turned.succ {history : List (ReadEvent replica)} {s : ReadSystem replica}
    (h : Turned n history s) : ∃ history s, Turned (n + 1) history s := by
  obtain ⟨current, hcurrent, hschema, hcursor, hgeneration, -⟩ := h.visible
  have happly := applyDelta_turn hcurrent hschema hcursor
  have hvisible : ((readSystem replica).exec s (.write (.applyDelta live 100 (turn n)))).2.visible =
      some (afterTurn n current) :=
    (congrArg (fun store => store.states.lookup schema.id) happly).trans (lookup_withState _ _ _)
  refine ⟨history ++ [(readSystem replica).event s (.write (.applyDelta live 100 (turn n)))],
    ((readSystem replica).exec s (.write (.applyDelta live 100 (turn n)))).2,
    { run := h.run.step _ trivial
      apart := fun e he state hstate => ?_
      reader := h.reader
      visible := ⟨afterTurn n current, hvisible, rfl, turn_cursor n, ?_, fun _ => rfl⟩ }⟩
  · rcases List.mem_append.mp he with he | he
    · exact h.apart e he state hstate
    · rw [List.mem_singleton.mp he, Machine.event_post, hvisible] at hstate
      obtain rfl := Option.some.inj hstate
      exact .inr (by rw [afterTurn, Map.lookup_erase_eq, if_pos rfl])
  · simp only [afterTurn, hgeneration]
    rw [UInt64.ofNat_add (n + 2) 1]
    rfl

theorem turned (n : Nat) : ∃ history s, Turned n history s := by
  induction n with
  | zero => exact turned_zero
  | succ n ih =>
    obtain ⟨_, _, h⟩ := ih
    exact h.succ

/-- A checkpoint with this source time. -/
def checkpointAt (sourceTime : Time) : Checkpoint :=
  { schema, cursor := "a", generation := 1, sourceTime, appliedAt := 1 }

theorem freshness_eq {checkpoint : Checkpoint} {sourceTime : Time}
    (h : checkpoint.sourceTime = sourceTime) (now : Time) :
    checkpoint.freshness now = (checkpointAt sourceTime).freshness now := by
  subst h
  rfl

/-- **A stale answer.** After 2^64 generations the second checkpoint has the number of the first
one, and the age that is compared with the bound is not that of the value. -/
theorem answer_stale : ∃ history s, (readSystem replica).Run history s ∧ s.visible ≠ none ∧
    s.reader = oldReader ∧
    ((readSystem replica).exec s (.read (.after live 100))).1 = some (.ok (some [2])) ∧
    ∀ call before payload, s.reader = .fetched call before payload →
      ∀ e ∈ history, ∀ state, e.post.visible = some state →
        ¬ AnswerOf call 100 state (some [2]) := by
  obtain ⟨history, s, h⟩ := turned (2 ^ 64 - 1)
  obtain ⟨state, hstate, -, -, hgeneration, htime⟩ := h.visible
  refine ⟨history, s, h.run, by simp [hstate], h.reader, ?_, ?_⟩
  · have hcheckpoint : s.written.store.checkpoint live replica.schema.id =
        .ok (some state.checkpoint) := by
      rw [Store.checkpoint, show s.written.store.states.lookup replica.schema.id =
        some state from hstate]
      rfl
    have hone : state.generation = 1 := by rw [hgeneration]; decide +kernel
    have hfresh : state.checkpoint.freshness 100 = 0 := by
      rw [freshness_eq (htime (by decide))]
      decide
    show (replica.step s.written.store s.reader (.after live 100)).1 = _
    rw [h.reader]
    simp only [oldReader, Replica.step, Replica.after, hcheckpoint, Replica.answer, hfresh]
    rw [if_neg (by simp [State.checkpoint, hone])]
    rfl
  · intro call before payload hreader e he state hvisible hof
    rw [h.reader] at hreader
    cases hreader
    rcases h.apart e he state hvisible with hold | hgone
    · have := hof.fresh rfl
      rw [freshness_eq hold] at this
      exact absurd this (by decide)
    · obtain ⟨_, _, hlookup, -⟩ := hof.value
      rw [hgone] at hlookup
      cases hlookup

end Wrapped

end Keelith.Projection

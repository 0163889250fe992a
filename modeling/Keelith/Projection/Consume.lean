import Keelith.Projection.Store

/-!
# What a runtime consumes

`Runtime.consume` (`programmable/projection/runtime.go`) over the memory store.

- **An iteration** (`Received`): the result of `session.Next`, where `none` is a nil frame, and the
  context and the clock that the store reads in it.
- **The loop** (`Consumer`, `step`, `consume`): `consume` makes the iterations of a list, until one
  of them returns. A session that has not ended or failed is a list on which none returns.
- **What the frames mean** (`Content`, `deliver`): the visible store, and the snapshot that has
  begun.
- **Which frames are taken** (`Takes`, `Taken`), by what is visible and has begun.

`consume_failure_atomic`: the store is at every point what the frames that were taken mean, and the
loop takes frames up to the first one that is not to be taken. The notifier, the observer and the
readiness signal do not write to the store and have no counterpart here; a `Frame` of another type
does not exist.
-/

namespace Keelith.Projection

open Memory

/-! ## The loop -/

/-- `ErrorClass`, of the errors that `consume` returns. -/
inductive ErrorClass where
  | context
  | source
  | store
  | protocol
  deriving DecidableEq

/-- What `consume` reads of a `Runtime`. -/
structure Runtime where
  schema : Schema
  /-- `errors.Is` of `context.Canceled` or `context.DeadlineExceeded`. -/
  isContextError : Error → Bool

/-- An iteration (module doc). -/
structure Received where
  frame : Except Error (Option Frame)
  ctx : Context
  now : Time

/-- The variables of `consume`. -/
structure Consumer where
  store : Store
  snapshot : Option SnapshotTxn := none
  progressed : Bool := false
  snapshotCommitted : Bool

/-- Why `consume` returned. -/
inductive Exit where
  | gap
  | failed (class_ : ErrorClass) (err : Error)
  deriving DecidableEq

namespace Runtime

def classifiedError (r : Runtime) (class_ : ErrorClass) (err : Error) : Exit :=
  .failed (if r.isContextError err then .context else class_) err

/-- One iteration, with the reason if it returns. -/
def step (r : Runtime) (c : Consumer) (i : Received) : Consumer × Option Exit :=
  let fail class_ err := (c, some (r.classifiedError class_ err))
  let invalid text := fail .protocol (.wrapped .errInvalidFrame text)
  match i.frame with
  | .error err => fail .source err
  | .ok none => invalid "nil frame"
  | .ok (some (.snapshotBegin schema)) =>
    match c.snapshot, r.schema.accepts schema, c.store.beginSnapshot i.ctx schema with
    | some _, _, _ => invalid "nested snapshot begin"
    | none, .error err, _ => fail .protocol err
    | none, .ok (), .error err => fail .store err
    | none, .ok (), .ok txn => ({ c with snapshot := some txn, progressed := true }, none)
  | .ok (some (.snapshotChunk mutations)) =>
    match c.snapshot, mutations with
    | none, _ | _, [] => invalid "snapshot chunk outside snapshot"
    | some txn, _ :: _ =>
      -- the mutations staged before a failure go with the transaction
      match mutations.foldlM SnapshotTxn.stage txn with
      | .error err => fail .store err
      | .ok txn => ({ c with snapshot := some txn, progressed := true }, none)
  | .ok (some (.snapshotEnd cursor sourceTime)) =>
    match c.snapshot with
    | none => invalid "snapshot end outside snapshot"
    | some txn =>
      match txn.commit c.store i.ctx i.now cursor sourceTime with
      | (.error err, txn, store) =>
        ({ c with snapshot := some txn, store }, some (r.classifiedError .store err))
      | (.ok (), _, store) =>
        ({ store, snapshot := none, progressed := true, snapshotCommitted := true }, none)
  | .ok (some (.delta batch)) =>
    match c.snapshot with
    | some _ => invalid "delta inside snapshot"
    | none =>
      match c.store.applyDelta i.ctx i.now batch with
      | (.error err, store) => ({ c with store }, some (r.classifiedError .store err))
      | (.ok (), store) => ({ c with store, progressed := true }, none)
  | .ok (some (.heartbeat cursor sourceTime)) =>
    if !(validateCursor cursor).isOk || sourceTime.isZero then invalid "malformed heartbeat"
    else ({ c with progressed := true }, none)
  | .ok (some (.gap requested floor)) =>
    if !(validateCursor requested).isOk then invalid "malformed gap request"
    else if !(validateCursor floor).isOk then invalid "malformed gap floor"
    else ({ c with progressed := true }, some .gap)

/-- `Runtime.consume`; the deferred function aborts the snapshot. -/
def consume (r : Runtime) (c : Consumer) : List Received → Consumer × Option Exit
  | [] => (c, none)
  | i :: rest =>
    match r.step c i with
    | (c, none) => consume r c rest
    | (c, some exit) => ({ c with snapshot := c.snapshot.map SnapshotTxn.abort }, some exit)

end Runtime

/-! ## What the frames mean -/

/-- The visible store, and the snapshot that has begun: its schema and its rows so far. -/
abbrev Content := Store × Option (Schema × Rows)

/-- The generation of a projection after the one that is visible. -/
def nextGeneration (s : Store) (id : ProjectionID) : UInt64 :=
  SnapshotTxn.currentGeneration (s.states.lookup id) + 1

/-- What a frame that is taken at `now` means. A snapshot is visible when it ends, a delta at once,
unless it is the one that was applied last. -/
def deliver (now : Time) : Content → Frame → Content
  | (s, none), .snapshotBegin schema => (s, some (schema, ∅))
  | (s, some (schema, rows)), .snapshotChunk mutations =>
    (s, some (schema, applyMutations rows mutations))
  | (s, some (schema, rows)), .snapshotEnd cursor sourceTime =>
    (s.withState schema.id
      { schema, cursor, generation := nextGeneration s schema.id, sourceTime, appliedAt := now
        values := rows }, none)
  | (s, none), .delta batch =>
    match s.states.lookup batch.schema.id with
    | none => (s, none)
    | some current =>
      if current.cursor = batch.cursor then (s, none)
      else (s.withState batch.schema.id
        { schema := batch.schema, cursor := batch.cursor
          generation := nextGeneration s batch.schema.id, sourceTime := batch.sourceTime
          appliedAt := now, values := applyMutations current.values batch.mutations
          lastDelta := deltaDigest batch, hasLastDelta := true }, none)
  | content, _ => content

/-- A delta continues the visible generation, or is the one that was applied last. -/
def Continues (current : State) (batch : DeltaBatch) : Prop :=
  compatibleSchema current.schema batch.schema = .ok () ∧
    if current.cursor = batch.cursor then
      current.hasLastDelta = true ∧ current.lastDelta = deltaDigest batch
    else current.cursor = batch.previous

/-- The frames to take: those that fit what has begun and what is visible. A gap ends the
session. -/
def Takes (r : Runtime) (content : Content) (ctx : Context) : Frame → Prop
  | .snapshotBegin schema => content.2 = none ∧ r.schema.accepts schema = .ok () ∧
    ctx.cause = none ∧ schema.validate = .ok () ∧
    ∀ current, content.1.states.lookup schema.id = some current →
      compatibleSchema current.schema schema = .ok ()
  | .snapshotChunk mutations => content.2 ≠ none ∧ mutations ≠ [] ∧
    ∀ mutation ∈ mutations, mutation.validate = .ok ()
  | .snapshotEnd cursor sourceTime => content.2 ≠ none ∧ ctx.cause = none ∧
    validateCursor cursor = .ok () ∧ sourceTime.isZero = false
  | .delta batch => content.2 = none ∧ ctx.cause = none ∧ batch.validate = .ok () ∧
    ∃ current, content.1.states.lookup batch.schema.id = some current ∧ Continues current batch
  | .heartbeat cursor sourceTime => validateCursor cursor = .ok () ∧ sourceTime.isZero = false
  | .gap .. => False

/-- The iterations take their frames, one after the other, and lead to this content. -/
inductive Taken (r : Runtime) : Content → List Received → Content → Prop
  | nil (content : Content) : Taken r content [] content
  | cons {content last : Content} {i : Received} {rest : List Received} {frame : Frame}
      (hframe : i.frame = .ok (some frame)) (htakes : Takes r content i.ctx frame)
      (hrest : Taken r (deliver i.now content frame) rest last) : Taken r content (i :: rest) last

/-- What a consumer shows and has staged. -/
def Consumer.content (c : Consumer) : Content :=
  (c.store, c.snapshot.map fun txn => (txn.schema, txn.values))

/-- The snapshot that has begun fits the visible generation: nothing else writes to the store. -/
def Consumer.Ok (c : Consumer) : Prop :=
  ∀ txn, c.snapshot = some txn → txn.closed = false ∧
    txn.checkSchema (c.store.states.lookup txn.schema.id) = .ok () ∧
    SnapshotTxn.currentGeneration (c.store.states.lookup txn.schema.id) = txn.baseGeneration

/-! ## When the store accepts -/

variable {r : Runtime} {c c' : Consumer} {i : Received} {s : Store} {ctx : Context} {now : Time}

theorem validateContext_ok_iff : validateContext ctx = .ok () ↔ ctx.cause = none := by
  unfold validateContext
  cases ctx.cause <;> simp

theorem beginSnapshot_ok_iff {schema : Schema} {txn : SnapshotTxn} :
    s.beginSnapshot ctx schema = .ok txn ↔
      (ctx.cause = none ∧ schema.validate = .ok () ∧
        ∀ current, s.states.lookup schema.id = some current →
          compatibleSchema current.schema schema = .ok ()) ∧
      txn = ⟨schema, SnapshotTxn.currentGeneration (s.states.lookup schema.id), ∅, false⟩ := by
  rw [Store.beginSnapshot, bind_unit_eq_ok, bind_unit_eq_ok, validateContext_ok_iff]
  cases s.states.lookup schema.id <;>
    simp [SnapshotTxn.currentGeneration, bind_unit_eq_ok, and_assoc, @eq_comm _ txn]

theorem foldlM_stage_ok_iff {mutations : List Mutation} {txn txn' : SnapshotTxn}
    (hopen : txn.closed = false) : mutations.foldlM SnapshotTxn.stage txn = .ok txn' ↔
      (∀ mutation ∈ mutations, mutation.validate = .ok ()) ∧
      txn' = { txn with values := applyMutations txn.values mutations } := by
  induction mutations generalizing txn with
  | nil => simp [applyMutations, pure, Except.pure, eq_comm]
  | cons mutation rest ih =>
    cases hvalid : mutation.validate with
    | error err => simp [SnapshotTxn.stage, bind, Except.bind, hvalid]
    | ok =>
      have hstage : txn.stage mutation = .ok { txn with values := mutation.apply txn.values } := by
        simp [SnapshotTxn.stage, hvalid, hopen]
      rw [List.foldlM_cons, hstage, ok_bind]
      refine Iff.trans (ih ?_) ?_
      · exact hopen
      · simp [hvalid, applyMutations]

theorem commit_ok_iff {txn : SnapshotTxn} (ctx : Context) (now : Time)
    (cursor : Cursor) (sourceTime : Time)
    (hopen : txn.closed = false)
    (hschema : txn.checkSchema (s.states.lookup txn.schema.id) = .ok ())
    (hbase : SnapshotTxn.currentGeneration (s.states.lookup txn.schema.id) = txn.baseGeneration) :
    (txn.commit s ctx now cursor sourceTime).1 = .ok () ↔
      ctx.cause = none ∧ validateCursor cursor = .ok () ∧ sourceTime.isZero = false := by
  rw [← validateContext_ok_iff, SnapshotTxn.commit]
  cases validateContext ctx with
  | error err => simp
  | ok =>
    cases validateCursor cursor with
    | error err => simp
    | ok => cases sourceTime.isZero <;> simp [hopen, hschema, hbase]

theorem applyDelta_ok_iff (s : Store) (ctx : Context) (now : Time) (batch : DeltaBatch) :
    (s.applyDelta ctx now batch).1 = .ok () ↔ ctx.cause = none ∧ batch.validate = .ok () ∧
      ∃ current, s.states.lookup batch.schema.id = some current ∧ Continues current batch := by
  rw [← validateContext_ok_iff, Store.applyDelta, Store.nextState]
  cases validateContext ctx with
  | error err => simp
  | ok =>
    cases batch.validate with
    | error err => simp
    | ok =>
      cases s.states.lookup batch.schema.id with
      | none => simp
      | some current =>
        cases hschema : compatibleSchema current.schema batch.schema with
        | error err => simp [Continues, hschema]
        | ok => by_cases hcursor : current.cursor = batch.cursor <;> grind [Continues]

/-- A delta that the store takes is new, or the one that it took last. -/
theorem deliver_applyDelta {s' : Store} {batch : DeltaBatch}
    (h : s.applyDelta ctx now batch = (.ok (), s')) :
    deliver now (s, none) (.delta batch) = (s', none) := by
  have heffect := applyDelta_effect s ctx now batch
  rw [h] at heffect
  cases heffect with
  | replayed hlookup hcursor => simp [deliver, hlookup, hcursor]
  | applied hlookup hvalid hschema hcursor hnew =>
    simp [deliver, hlookup, hnew, nextGeneration, SnapshotTxn.currentGeneration, State.after]

/-! ## One iteration -/

/-- All that an iteration can do: it takes a frame, or it returns and leaves the store as it is. -/
inductive Iterates (r : Runtime) (c : Consumer) (i : Received) : Consumer × Option Exit → Prop
  | takes {c' : Consumer} {frame : Frame} (hframe : i.frame = .ok (some frame))
      (htakes : Takes r c.content i.ctx frame)
      (hcontent : c'.content = deliver i.now c.content frame) (hok : c'.Ok) :
      Iterates r c i (c', none)
  | returns {c' : Consumer} {exit : Exit}
      (hrefused : ∀ frame, i.frame = .ok (some frame) → ¬ Takes r c.content i.ctx frame)
      (hstore : c'.store = c.store) : Iterates r c i (c', some exit)

theorem Iterates.refused {frame : Frame} {c' : Consumer} {exit : Exit}
    (hframe : i.frame = .ok (some frame)) (h : ¬ Takes r c.content i.ctx frame)
    (hstore : c'.store = c.store) : Iterates r c i (c', some exit) := by
  refine .returns (fun other hother => ?_) hstore
  rw [hframe] at hother
  cases hother
  exact h

theorem step_snapshotBegin {schema : Schema} (hframe : i.frame = .ok (some (.snapshotBegin schema))) :
    Iterates r c i (r.step c i) := by
  simp only [Runtime.step, hframe]
  split
  next hsnapshot => exact .refused hframe (by simp [Takes, Consumer.content, hsnapshot]) rfl
  next haccepts => exact .refused hframe (by simp [Takes, haccepts]) rfl
  next hbegin =>
    refine .refused hframe (fun ⟨_, _, hfits⟩ => ?_) rfl
    have hok := (beginSnapshot_ok_iff (s := c.store)).mpr ⟨hfits, rfl⟩
    rw [hbegin] at hok
    cases hok
  next txn hsnapshot haccepts hbegin =>
    obtain ⟨hfits, rfl⟩ := beginSnapshot_ok_iff.mp hbegin
    refine .takes hframe ⟨by simp [Consumer.content, hsnapshot], haccepts, hfits⟩ ?_ ?_
    · simp [Consumer.content, deliver, hsnapshot]
    · rintro _ ⟨⟩
      refine ⟨rfl, ?_, rfl⟩
      cases hcurrent : c.store.states.lookup schema.id with
      | none => rfl
      | some current => exact hfits.2.2 current hcurrent

theorem step_snapshotChunk (h : c.Ok) {mutations : List Mutation}
    (hframe : i.frame = .ok (some (.snapshotChunk mutations))) : Iterates r c i (r.step c i) := by
  simp only [Runtime.step, hframe]
  split
  next hsnapshot => exact .refused hframe (by simp [Takes, Consumer.content, hsnapshot]) rfl
  next => exact .refused hframe (by simp [Takes]) rfl
  next txn mutation rest hsnapshot =>
    obtain ⟨hopen, hschema, hbase⟩ := h txn hsnapshot
    split
    next hstage =>
      refine .refused hframe (fun ⟨_, _, hvalid⟩ => ?_) rfl
      have hok := (foldlM_stage_ok_iff hopen).mpr ⟨hvalid, rfl⟩
      rw [hstage] at hok
      cases hok
    next hstage =>
      obtain ⟨hvalid, rfl⟩ := (foldlM_stage_ok_iff hopen).mp hstage
      refine .takes hframe ⟨by simp [Consumer.content, hsnapshot], by simp, hvalid⟩ ?_ ?_
      · simp [Consumer.content, deliver, hsnapshot]
      · rintro _ ⟨⟩
        exact ⟨hopen, hschema, hbase⟩

theorem step_snapshotEnd (h : c.Ok) {cursor : Cursor} {sourceTime : Time}
    (hframe : i.frame = .ok (some (.snapshotEnd cursor sourceTime))) :
    Iterates r c i (r.step c i) := by
  simp only [Runtime.step, hframe]
  split
  next hsnapshot => exact .refused hframe (by simp [Takes, Consumer.content, hsnapshot]) rfl
  next txn hsnapshot =>
    obtain ⟨hopen, hschema, hbase⟩ := h txn hsnapshot
    have hiff := commit_ok_iff i.ctx i.now cursor sourceTime hopen hschema hbase
    have heffect := commit_effect txn c.store i.ctx i.now cursor sourceTime
    split
    next hcommit =>
      rw [hcommit] at heffect hiff
      cases heffect
      exact .refused hframe (fun htakes => by simpa using hiff.mpr htakes.2) rfl
    next hcommit =>
      rw [hcommit] at heffect hiff
      cases heffect
      refine .takes hframe ⟨by simp [Consumer.content, hsnapshot], hiff.mp rfl⟩ ?_ nofun
      simp [Consumer.content, deliver, hsnapshot, SnapshotTxn.published, nextGeneration]

theorem step_delta {batch : DeltaBatch} (hframe : i.frame = .ok (some (.delta batch))) :
    Iterates r c i (r.step c i) := by
  simp only [Runtime.step, hframe]
  split
  next hsnapshot => exact .refused hframe (by simp [Takes, Consumer.content, hsnapshot]) rfl
  next hsnapshot =>
    have hiff := applyDelta_ok_iff c.store i.ctx i.now batch
    split
    next hdelta =>
      have heffect := applyDelta_effect c.store i.ctx i.now batch
      rw [hdelta] at heffect hiff
      cases heffect
      exact .refused hframe (fun htakes => by simpa using hiff.mpr htakes.2) rfl
    next hdelta =>
      rw [hdelta] at hiff
      refine .takes hframe ⟨by simp [Consumer.content, hsnapshot], hiff.mp rfl⟩ ?_ ?_
      · rw [Consumer.content, Consumer.content, hsnapshot]
        exact (deliver_applyDelta hdelta).symm
      · intro txn htxn
        rw [hsnapshot] at htxn
        cases htxn

theorem step_iterates (r : Runtime) (i : Received) (h : c.Ok) : Iterates r c i (r.step c i) := by
  rcases hframe : i.frame with err | _ | frame
  · simp only [Runtime.step, hframe]
    exact .returns (by simp [hframe]) rfl
  · simp only [Runtime.step, hframe]
    exact .returns (by simp [hframe]) rfl
  cases frame with
  | snapshotBegin schema => exact step_snapshotBegin hframe
  | snapshotChunk mutations => exact step_snapshotChunk h hframe
  | snapshotEnd cursor sourceTime => exact step_snapshotEnd h hframe
  | delta batch => exact step_delta hframe
  | heartbeat cursor sourceTime =>
    simp only [Runtime.step, hframe]
    split
    next hbad =>
      refine .refused hframe (fun ⟨hcursor, htime⟩ => ?_) rfl
      rw [hcursor, htime] at hbad
      cases hbad
    next hgood =>
      rw [Bool.or_eq_true, not_or, Bool.not_eq_true', Bool.not_eq_false, Bool.not_eq_true] at hgood
      refine .takes hframe ⟨?_, hgood.2⟩ ?_ h
      · cases hcursor : validateCursor cursor with
        | error err => rw [hcursor] at hgood; cases hgood.1
        | ok => rfl
      · cases hsnapshot : c.snapshot <;> simp [Consumer.content, deliver, hsnapshot]
  | gap requested floor =>
    simp only [Runtime.step, hframe]
    split
    · exact .refused hframe id rfl
    split <;> exact .refused hframe id rfl

/-! ## Whole sessions -/

/-- **Consumption is failure atomic.** From every store, for every list of iterations: the first
ones take their frames, and the next one, if there is one, has a frame that is not to be taken, or
none, and makes the loop return. Then, and while the loop goes on, the store is what the frames
taken mean. -/
theorem consume_failure_atomic (r : Runtime) (store : Store) (snapshotCommitted : Bool)
    (received : List Received) :
    ∃ (before rest : List Received) (content : Content), received = before ++ rest ∧
      Taken r (store, none) before content ∧
      (r.consume { store, snapshotCommitted } received).1.store = content.1 ∧
      ((r.consume { store, snapshotCommitted } received).2 = none ↔ rest = []) ∧
      ∀ i ∈ rest.head?, ∀ frame, i.frame = .ok (some frame) → ¬ Takes r content i.ctx frame := by
  suffices hrun : ∀ c : Consumer, c.Ok → ∃ (before rest : List Received) (content : Content),
      received = before ++ rest ∧ Taken r c.content before content ∧
      (r.consume c received).1.store = content.1 ∧ ((r.consume c received).2 = none ↔ rest = []) ∧
      ∀ i ∈ rest.head?, ∀ frame, i.frame = .ok (some frame) → ¬ Takes r content i.ctx frame from
    hrun { store, snapshotCommitted } nofun
  induction received with
  | nil => exact fun c _ => ⟨[], [], c.content, rfl, .nil _, rfl, by simp [Runtime.consume], nofun⟩
  | cons i received ih =>
    intro c hc
    have hstep := step_iterates r i hc
    generalize heq : r.step c i = result at hstep
    cases hstep with
    | @takes next frame hframe htakes hcontent hok =>
      obtain ⟨before, rest, content, rfl, htaken, hstore, hexit, hrefused⟩ := ih next hok
      rw [Runtime.consume, heq]
      exact ⟨i :: before, rest, content, rfl, .cons hframe htakes (hcontent ▸ htaken),
        hstore, hexit, hrefused⟩
    | returns hrefused hstore =>
      rw [Runtime.consume, heq]
      refine ⟨[], i :: received, c.content, rfl, .nil _, hstore, by simp, ?_⟩
      rintro _ ⟨⟩
      exact hrefused

end Keelith.Projection

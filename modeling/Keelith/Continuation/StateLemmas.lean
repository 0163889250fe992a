import Keelith.Lib.Checks
import Keelith.Continuation.State

/-!
# Rules for `apply`

What the functions of `Keelith/Continuation/State.lean` accept and return, as propositions; the
later modules use these rules and do not unfold the functions.

- **Valid snapshots** (`SnapshotOk`, `validateSnapshot_ok_iff`): the fields of a snapshot that
  passes `validateSnapshot`. `SnapshotOk.window` is the retained window in `Nat`: the frames are
  numbered `frameFloor, …, sequence`.
- **Appended frames** (`appendFrames_ok_iff`): `appendFrames` succeeds on new frames that are all
  `Appendable`, if the sequence does not overflow, and appends them numbered (`numbered`).
- **One transition** (`apply_ok_iff`): `apply` replays a recorded command (`Replays`), or advances
  the call (`Advances`) to `advanced current transition`.
- **Preservation** (`apply_valid`): the result of `apply` is a valid snapshot.
-/

namespace Keelith.Continuation

/-! ## Valid workflow states -/

/-- The workflow states that `validateWorkflowState` accepts. -/
structure WorkflowOk (state : WorkflowSnapshotState) : Prop where
  version : validIdentity state.version = true
  digest : state.fingerprint.utf8ByteSize = 64 ∧ hexDecodes state.fingerprint = true
  started : state.startedAt.isZero = false
  startedNormal : state.startedAt = normalizeReadyAt state.startedAt
  size : 0 < state.nodes.size ∧ state.nodes.size ≤ maxWorkflowNodes
  node : ∀ id node, state.nodes.lookup id = some node → workflowNodeValid id node = true

theorem validateWorkflowState_ok_iff {state : WorkflowSnapshotState} :
    validateWorkflowState (some state) = .ok () ↔ WorkflowOk state := by
  simp only [validateWorkflowState, guard_eq_ok, Bool.or_eq_true, Bool.not_eq_true',
    bne_iff_ne, beq_iff_eq,
    decide_eq_true_eq, not_or, not_not, Bool.not_eq_false, Bool.not_eq_true, and_true, Map.all_iff]
  constructor
  · rintro ⟨⟨⟨⟨⟨⟨hv, hf⟩, hs⟩, hn⟩, h0⟩, hm⟩, h2, h3⟩
    exact ⟨hv, ⟨hf, h2⟩, hs, hn, by omega, h3⟩
  · intro h
    have h1 := h.size
    exact ⟨⟨⟨⟨⟨⟨h.version, h.digest.1⟩, h.started⟩, h.startedNormal⟩, by omega⟩, by omega⟩,
      h.digest.2, h.node⟩

theorem isOk_iff {ε : Type} {x : Except ε Unit} : x.isOk = true ↔ x = .ok () := by
  cases x <;> simp [Except.toBool]

/-- The successors that `validateWorkflowSuccessor` accepts. -/
structure WorkflowStep (current next : WorkflowSnapshotState) : Prop where
  currentOk : WorkflowOk current
  nextOk : WorkflowOk next
  version : current.version = next.version
  fingerprint : current.fingerprint = next.fingerprint
  startedAt : current.startedAt = next.startedAt
  size : current.nodes.size = next.nodes.size
  node : ∀ id previous, current.nodes.lookup id = some previous →
    ∃ candidate, next.nodes.lookup id = some candidate ∧
      workflowNodeSuccessor previous candidate = true

theorem validateWorkflowSuccessor_ok_iff {current next : WorkflowSnapshotState} :
    validateWorkflowSuccessor (some current) next = .ok () ↔ WorkflowStep current next := by
  have hnode : current.nodes.all (workflowNodeFollows next) = true ↔
      ∀ id previous, current.nodes.lookup id = some previous →
        ∃ candidate, next.nodes.lookup id = some candidate ∧
          workflowNodeSuccessor previous candidate = true := by
    rw [Map.all_iff]
    refine forall_congr' fun id => forall_congr' fun previous => imp_congr_right fun _ => ?_
    unfold workflowNodeFollows
    cases next.nodes.lookup id <;> simp
  simp only [validateWorkflowSuccessor, guard_eq_ok, Bool.or_eq_true, Bool.not_eq_true', bne_iff_ne,
    not_or, not_not, Bool.not_eq_false, isOk_iff, validateWorkflowState_ok_iff, hnode, and_true]
  constructor
  · rintro ⟨⟨⟨⟨⟨⟨hc, hn⟩, hv⟩, hf⟩, hs⟩, hz⟩, h2⟩
    exact ⟨hc, hn, hv, hf, hs, hz, h2⟩
  · intro h
    exact ⟨⟨⟨⟨⟨⟨h.currentOk, h.nextOk⟩, h.version⟩, h.fingerprint⟩, h.startedAt⟩, h.size⟩, h.node⟩

/-! ## Valid snapshots -/

/-- The snapshots that `validateSnapshot` accepts. -/
structure SnapshotOk (snapshot : Snapshot) : Prop where
  callID : validIdentity snapshot.callID = true
  operation : validOperation snapshot.operation = true
  status : snapshot.status.valid = true
  workflow : ∀ state, snapshot.workflow = some state → WorkflowOk state
  timer : snapshot.readyAt.isZero = false →
    snapshot.status = .suspended ∧ snapshot.readyAt = normalizeReadyAt snapshot.readyAt
  revision : snapshot.revision ≠ 0
  floor : 1 ≤ snapshot.frameFloor.toNat
  window : snapshot.frameFloor.toNat + snapshot.frames.length = snapshot.sequence.toNat + 1
  initial : snapshot.revision = 1 → initialShape snapshot = true
  frames : validFrames snapshot.frameFloor snapshot.frames = true
  commands : ∀ id record, snapshot.commands.lookup id = some record →
    validCommand id record = true

theorem validateWorkflowState_isOk {state : Option WorkflowSnapshotState} :
    (validateWorkflowState state).isOk = true ↔ ∀ s, state = some s → WorkflowOk s := by
  cases state with
  | none => simp [validateWorkflowState, Except.toBool]
  | some s =>
    rw [isOk_iff, validateWorkflowState_ok_iff]
    simp

variable {snapshot : Snapshot} {current next : Snapshot} {transition : Transition}

theorem validateSnapshot_ok_iff : validateSnapshot snapshot = .ok () ↔ SnapshotOk snapshot := by
  have hw := @window_iff snapshot.frameFloor snapshot.sequence snapshot.frames.length
  simp only [validateSnapshot, guard_eq_ok, Bool.or_eq_true, Bool.not_eq_true', not_or,
    Bool.not_eq_false,
    Bool.and_eq_true, bne_iff_ne, beq_iff_eq, decide_eq_true_eq, not_and, not_not,
    validateWorkflowState_isOk, Map.all_iff, and_true]
  constructor
  · rintro ⟨⟨⟨hc, ho⟩, hs⟩, h2, h3, ⟨⟨⟨hr, h0⟩, hg⟩, hl⟩, h5, h6, h7⟩
    obtain ⟨hfl, hwin⟩ := hw.mp ⟨h0, fun hx => hx.2 (hg hx.1), hl⟩
    exact ⟨hc, ho, hs, h2, h3, hr, hfl, hwin, h5, h6, h7⟩
  · intro h
    obtain ⟨h0, hg, hl⟩ := hw.mpr ⟨h.floor, h.window⟩
    refine ⟨⟨⟨h.callID, h.operation⟩, h.status⟩, h.workflow, h.timer, ⟨⟨⟨h.revision, h0⟩, ?_⟩, hl⟩,
      h.initial, h.frames, h.commands⟩
    simpa using hg

/-! ## Appended frames -/

/-- A frame that `Apply` accepts in a transition. -/
structure Appendable (frame : Frame) : Prop where
  sequence : frame.sequence = 0
  kind : frame.kind.valid = true
  notAccepted : frame.kind ≠ .accepted
  payload : frame.payload.length ≤ maxPayloadBytes

/-- The frames numbered from `sequence`. -/
def numbered (sequence : UInt64) : List Frame → List Frame
  | [] => []
  | frame :: frames => { frame with sequence } :: numbered (sequence + 1) frames

@[simp] theorem length_numbered (sequence : UInt64) (frames : List Frame) :
    (numbered sequence frames).length = frames.length := by
  induction frames generalizing sequence with
  | nil => rfl
  | cons frame frames ih => simp [numbered, ih]

theorem appendFrames_ok_iff {sequence sequence' : UInt64} {frames frames' new : List Frame} :
    appendFrames sequence frames new = .ok (sequence', frames') ↔
      (∀ frame ∈ new, Appendable frame) ∧ sequence.toNat + new.length < 2 ^ 64 ∧
        sequence'.toNat = sequence.toNat + new.length ∧
        frames' = frames ++ numbered (sequence + 1) new := by
  induction new generalizing sequence frames with
  | nil =>
    have := toNat_lt_two_pow sequence
    simp only [appendFrames, Except.ok.injEq, Prod.mk.injEq, List.not_mem_nil, false_implies,
      implies_true, List.length_nil, Nat.add_zero, this, true_and, numbered, List.append_nil,
      UInt64.toNat_inj]
    exact ⟨fun h => ⟨h.1.symm, h.2.symm⟩, fun h => ⟨h.1.symm, h.2.symm⟩⟩
  | cons frame rest ih =>
    have happend : Appendable frame ↔ ¬ (frame.sequence != 0) = true ∧
        ¬ (!frame.kind.valid || frame.kind == .accepted ||
          decide (frame.payload.length > maxPayloadBytes)) = true := by
      simp only [Bool.or_eq_true, Bool.not_eq_true', bne_iff_ne, beq_iff_eq, decide_eq_true_eq,
        not_or, not_not, Bool.not_eq_false, Nat.not_lt]
      exact ⟨fun h => ⟨h.sequence, ⟨h.kind, h.notAccepted⟩, h.payload⟩,
        fun h => ⟨h.1, h.2.1.1, h.2.1.2, h.2.2⟩⟩
    rw [appendFrames, guard_eq_ok, guard_eq_ok, guard_eq_ok, ih, List.forall_mem_cons, happend]
    constructor
    · rintro ⟨h0, hk, hm, hall, hlt, hs, rfl⟩
      have hsucc := toNat_succ (show sequence ≠ maxUint64 by simpa using hm)
      exact ⟨⟨⟨h0, hk⟩, hall⟩, by rw [List.length_cons]; omega, by rw [List.length_cons]; omega, by
        simp [numbered]⟩
    · rintro ⟨⟨⟨h0, hk⟩, hall⟩, hlt, hs, rfl⟩
      rw [List.length_cons] at hlt hs
      have hm : sequence ≠ maxUint64 := by
        rintro rfl
        rw [show maxUint64.toNat = 2 ^ 64 - 1 from rfl] at hlt
        omega
      have hsucc := toNat_succ hm
      exact ⟨h0, hk, by simpa using hm, hall, by omega, by omega, by simp [numbered]⟩

/-! ## One transition -/

/-- The result of a transition that advances the call. -/
def advanced (current : Snapshot) (transition : Transition) : Snapshot :=
  { current with
    status := transition.status
    readyAt := if transition.status = .suspended then normalizeReadyAt transition.readyAt
      else Time.zero
    workflow := transition.workflow.or current.workflow
    revision := current.revision + 1
    fence := nextFence current transition
    sequence := current.sequence + UInt64.ofNat transition.frames.length
    frames := current.frames ++ numbered (current.sequence + 1) transition.frames
    commands := if transition.command = .none then current.commands
      else current.commands.insert transition.commandID (commandRecordOf transition) }

theorem advanced_commands_self (current : Snapshot) (hne : transition.command ≠ .none) :
    (advanced current transition).commands.lookup transition.commandID =
      some (commandRecordOf transition) := by
  simp [advanced, hne]

theorem advanced_commands_other (current : Snapshot) {c : String}
    (h : ¬ (transition.command ≠ .none ∧ transition.commandID = c)) :
    (advanced current transition).commands.lookup c = current.commands.lookup c := by
  by_cases hne : transition.command = .none
  · simp [advanced, hne]
  · have hc : c ≠ transition.commandID := fun hc => h ⟨hne, hc.symm⟩
    simp [advanced, hne, hc]

/-- The checks of `advance`. -/
structure Advances (current : Snapshot) (transition : Transition) : Prop where
  live : current.status.terminal = false
  allowed : allowedTransition current.status transition.status transition.command = true
  revision : current.revision ≠ maxUint64
  fence : current.fence ≤ nextFence current transition
  running : transition.status = .running → nextFence current transition ≠ 0
  frames : ∀ frame ∈ transition.frames, Appendable frame
  sequence : current.sequence.toNat + transition.frames.length < 2 ^ 64

theorem advance_ok_iff : advance current transition = .ok next ↔
      Advances current transition ∧ next = advanced current transition := by
  simp only [advance, guard_eq_ok, Bool.not_eq_true, Bool.not_eq_true', Bool.not_eq_false,
    beq_iff_eq, Bool.or_eq_true,
    decide_eq_true_eq, Bool.and_eq_true, not_or, not_and, UInt64.not_lt]
  constructor
  · rintro ⟨h1, h2, h3, h4, h⟩
    split at h
    · cases h
    rename_i s fs hap
    obtain ⟨hf, hlt, hs, rfl⟩ := appendFrames_ok_iff.mp hap
    obtain rfl := UInt64.toNat_inj.mp (hs.trans (toNat_add_ofNat hlt).symm)
    exact ⟨⟨h1, h2, h3, h4.1, h4.2, hf, hlt⟩, (Except.ok.inj h).symm⟩
  · rintro ⟨h, rfl⟩
    refine ⟨h.live, h.allowed, h.revision, ⟨h.fence, h.running⟩, ?_⟩
    rw [appendFrames_ok_iff.mpr ⟨h.frames, h.sequence, toNat_add_ofNat h.sequence, rfl⟩]
    rfl

/-- The command of the transition is recorded with the same content. -/
structure Replays (current : Snapshot) (transition : Transition) : Prop where
  command : transition.command ≠ .none
  commandID : validIdentity transition.commandID = true
  record : current.commands.lookup transition.commandID = some (commandRecordOf transition)

/-- The transition has no command, or one that is not recorded. -/
def NewCommand (current : Snapshot) (transition : Transition) : Prop :=
  transition.command = .none ∨
    (validIdentity transition.commandID = true ∧
      current.commands.lookup transition.commandID = none)

theorem applyCommand_ok_iff : applyCommand current transition = .ok next ↔
      (Replays current transition ∧ next = current) ∨
      (NewCommand current transition ∧ Advances current transition ∧
        next = advanced current transition) := by
  simp only [applyCommand]
  by_cases hc : transition.command = .none
  · rw [if_pos hc, advance_ok_iff]
    constructor
    · intro h; exact .inr ⟨.inl hc, h⟩
    · rintro (⟨h, -⟩ | ⟨-, h⟩)
      · exact absurd hc h.command
      · exact h
  · rw [if_neg hc, guard_eq_ok]
    cases hl : current.commands.lookup transition.commandID with
    | none =>
      simp only [advance_ok_iff]
      constructor
      · rintro ⟨hv, h⟩
        exact .inr ⟨.inr ⟨by simpa using hv, hl⟩, h⟩
      · rintro (⟨h, -⟩ | ⟨hn, h⟩)
        · rw [h.record] at hl; cases hl
        · exact ⟨by simpa using (hn.resolve_left hc).1, h⟩
    | some previous =>
      rw [guard_eq_ok]
      constructor
      · rintro ⟨hv, he, h⟩
        obtain rfl : previous = commandRecordOf transition := by simpa using he
        exact .inl ⟨⟨hc, by simpa using hv, hl⟩, (Except.ok.inj h).symm⟩
      · rintro (⟨h, rfl⟩ | ⟨hn, -⟩)
        · rw [h.record] at hl
          exact ⟨by simpa using h.commandID, by simp [Option.some.inj hl], rfl⟩
        · rw [(hn.resolve_left hc).2] at hl; cases hl

/-- The checks of `apply` on the transition, before its command. -/
structure TransitionOk (current : Snapshot) (transition : Transition) : Prop where
  status : transition.status.valid = true
  timer : badTimer transition = false
  workflow : badWorkflow current transition = false

/-- **What `apply` accepts and returns.** -/
theorem apply_ok_iff : apply current transition = .ok next ↔
      SnapshotOk current ∧ TransitionOk current transition ∧
      ((Replays current transition ∧ next = current) ∨
       (NewCommand current transition ∧ Advances current transition ∧
        next = advanced current transition)) := by
  rw [← applyCommand_ok_iff, ← validateSnapshot_ok_iff]
  simp only [apply]
  constructor
  · intro h
    split at h
    · cases h
    rename_i hv
    simp only [guard_eq_ok] at h
    obtain ⟨h1, h2, h3, h⟩ := h
    exact ⟨hv, ⟨by simpa using h1, by simpa using h2, by simpa using h3⟩, h⟩
  · rintro ⟨hv, ht, h⟩
    rw [hv]
    simp [ht.status, ht.timer, ht.workflow, h]

/-- A recorded command with another content conflicts, in every status. -/
theorem apply_conflict {record : CommandRecord}
    (hc : SnapshotOk current) (ht : TransitionOk current transition)
    (hcommand : transition.command ≠ .none) (hid : validIdentity transition.commandID = true)
    (hl : current.commands.lookup transition.commandID = some record)
    (hne : record ≠ commandRecordOf transition) :
    apply current transition =
      .error (stateError .errCommandConflict current.status transition.status) := by
  have hcase : applyCommand current transition =
      .error (stateError .errCommandConflict current.status transition.status) := by
    unfold applyCommand
    rw [if_neg hcommand]
    simp [hid, hl, hne]
  simp [apply, validateSnapshot_ok_iff.mpr hc, ht.status, ht.timer, ht.workflow, hcase]

/-! ## Preservation -/

theorem validFrames_append (expected : UInt64) (frames new : List Frame) :
    validFrames expected (frames ++ new) =
      (validFrames expected frames && validFrames (expected + UInt64.ofNat frames.length) new) := by
  induction frames generalizing expected with
  | nil => simp [validFrames]
  | cons frame frames ih =>
    have e : expected + 1 + UInt64.ofNat frames.length =
        expected + UInt64.ofNat (frames.length + 1) := by
      rw [UInt64.ofNat_add, UInt64.add_assoc, UInt64.add_comm 1]; rfl
    rw [List.cons_append, validFrames, ih, List.length_cons, ← e, validFrames]
    simp only [Bool.and_assoc]

theorem validFrames_numbered {sequence : UInt64} {new : List Frame}
    (h : ∀ frame ∈ new, Appendable frame) :
    validFrames sequence (numbered sequence new) = true := by
  induction new generalizing sequence with
  | nil => rfl
  | cons frame new ih =>
    have hf := h frame (by simp)
    simp only [numbered, validFrames, hf.kind, Bool.and_eq_true,
      decide_eq_true_eq, ih fun f hm => h f (by simp [hm]), and_true]
    exact ⟨by simp [hf.notAccepted], hf.payload⟩

/-- The sequence after the retained window. -/
theorem SnapshotOk.floor_add_length (h : SnapshotOk snapshot) :
    snapshot.frameFloor + UInt64.ofNat snapshot.frames.length = snapshot.sequence + 1 := by
  have hw := h.window
  apply UInt64.toNat_inj.mp
  rw [UInt64.toNat_add, UInt64.toNat_add, UInt64.toNat_ofNat', UInt64.toNat_one]
  omega

theorem Advances.toNat_sequence (h : Advances current transition) :
    (advanced current transition).sequence.toNat =
      current.sequence.toNat + transition.frames.length :=
  toNat_add_ofNat h.sequence

/-- A transition that advances has no command, a signal or a cancelation. -/
theorem command_of_allowed {source target : Status} {command : CommandKind}
    (h : allowedTransition source target command = true) :
    command = .none ∨ command = .signal ∨ command = .cancel := by
  cases command <;> simp_all [allowedTransition]

theorem advanced_valid (hc : SnapshotOk current)
    (ht : TransitionOk current transition) (hn : NewCommand current transition)
    (h : Advances current transition) : SnapshotOk (advanced current transition) := by
  have hrev := toNat_succ h.revision
  have hpos := pos_of_ne_zero hc.revision
  refine ⟨hc.callID, hc.operation, ht.status, ?_, ?_, ?_, hc.floor, ?_, ?_, ?_, ?_⟩
  · intro state hs
    have hb := ht.workflow
    unfold badWorkflow at hb
    cases hw : transition.workflow with
    | none =>
      simp only [advanced, hw] at hs
      exact hc.workflow state hs
    | some next =>
      simp only [advanced, hw, Option.some_or, Option.some.injEq] at hs
      subst hs
      simp only [hw, Bool.not_eq_false', isOk_iff] at hb
      cases hcw : current.workflow with
      | none => rw [hcw] at hb; cases hb
      | some w =>
        rw [hcw, validateWorkflowSuccessor_ok_iff] at hb
        exact hb.nextOk
  · intro hz
    by_cases hs : transition.status = .suspended
    · simp only [advanced, if_pos hs]
      exact ⟨hs, (normalizeReadyAt_idem _).symm⟩
    · simp only [advanced, if_neg hs] at hz
      exact absurd hz (by decide)
  · exact ne_zero_of_pos (by show 1 ≤ (current.revision + 1).toNat; omega)
  · have hw := hc.window
    rw [h.toNat_sequence]
    simp only [advanced, List.length_append, length_numbered]
    omega
  · intro h1
    have : (current.revision + 1).toNat = 1 := by
      rw [show current.revision + 1 = 1 from h1]; rfl
    omega
  · simp only [advanced]
    rw [validFrames_append, hc.frames, hc.floor_add_length, validFrames_numbered h.frames]
    rfl
  · intro id record hl
    simp only [advanced] at hl
    split at hl
    · exact hc.commands id record hl
    next hcmd =>
      rw [Map.lookup_insert_eq] at hl
      split at hl
      next hid =>
        subst hid
        cases hl
        have hv := (hn.resolve_left hcmd).1
        have hk := (command_of_allowed h.allowed).resolve_left hcmd
        simp only [validCommand, hv, Bool.true_and, Bool.or_eq_true, beq_iff_eq]
        exact hk
      next => exact hc.commands id record hl

/-- The result of `apply` is a valid snapshot. -/
theorem apply_valid (h : apply current transition = .ok next) : SnapshotOk next := by
  obtain ⟨hc, ht, ⟨-, rfl⟩ | ⟨hn, ha, rfl⟩⟩ := apply_ok_iff.mp h
  · exact hc
  · exact advanced_valid hc ht hn ha

/-! ## Constructors -/

theorem ne_empty_of_validIdentity {s : String} (h : validIdentity s = true) : s ≠ "" := by
  rintro rfl
  exact absurd h (by decide)

theorem newSnapshot_valid {callID : CallID} {operation : Operation}
    (h : newSnapshot callID operation = .ok snapshot) : SnapshotOk snapshot := by
  obtain ⟨hv, h⟩ := guard_eq_ok.mp h
  simp only [Bool.or_eq_true, Bool.not_eq_true', not_or, Bool.not_eq_false] at hv
  cases h
  refine ⟨hv.1, hv.2, rfl, by simp, fun hz =>
    absurd (show Time.zero.isZero = false from hz) (by decide),
    (by decide : (1 : UInt64) ≠ 0), (by decide : 1 ≤ (1 : UInt64).toNat), rfl, fun _ => rfl,
    rfl, by simp⟩

theorem newSnapshotWithInput_valid {callID : CallID} {operation : Operation} {input : List UInt8}
    (h : newSnapshotWithInput callID operation input = .ok snapshot) :
    SnapshotOk snapshot := by
  unfold newSnapshotWithInput at h
  split at h
  · cases h
  rename_i base hb
  split at h
  · cases h
  rename_i frame hf
  cases h
  have hbase := newSnapshot_valid hb
  obtain rfl := Except.ok.inj (guard_eq_ok.mp hb).2
  obtain ⟨hp, hf⟩ := guard_eq_ok.mp hf
  cases hf
  simp only [FrameKind.valid, Bool.not_true, Bool.false_or, decide_eq_true_eq, Nat.not_lt] at hp
  refine { hbase with
    status := rfl, workflow := by simp, window := rfl, initial := fun _ => ?_, frames := ?_ }
  · simp [initialShape, Map.size]
  · simp [validFrames, FrameKind.valid, hp]

/-- What a successful prune returns: the same call with the frames from `floor` on, if `floor` is
above the retained one. -/
theorem pruneSnapshot_ok {pruned : Snapshot} {floor : UInt64}
    (h : pruneSnapshot snapshot floor = .ok pruned) :
    SnapshotOk snapshot ∧ SnapshotOk pruned ∧ ∃ floor' n, pruned =
      { snapshot with frameFloor := floor', frames := snapshot.frames.drop n } := by
  obtain ⟨hv, h⟩ := guard_eq_ok.mp h
  simp only [Bool.not_eq_true', Bool.not_eq_false, isOk_iff, validateSnapshot_ok_iff] at hv
  obtain ⟨-, h⟩ := guard_eq_ok.mp h
  split at h
  · cases h
    exact ⟨hv, hv, snapshot.frameFloor, 0, rfl⟩
  obtain ⟨-, h⟩ := guard_eq_ok.mp h
  obtain ⟨hp, h⟩ := guard_eq_ok.mp h
  simp only [Bool.not_eq_true', Bool.not_eq_false, isOk_iff, validateSnapshot_ok_iff] at hp
  cases h
  exact ⟨hv, hp, _, _, rfl⟩

end Keelith.Continuation

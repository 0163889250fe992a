import Keelith.Continuation.Attach
import Keelith.Continuation.Memory.Successor

/-!
# Idempotent commands of the in-memory Store

A command that `SubmitSignal` or `RequestCancel` accepted stays recorded with the digest of its
frame as long as the call's record exists. A run here is one in which every committed `Transition`
is an `Apply` of the record (`appliedMachine`).

* `commandMessage_inj`: the hashed message determines the frames. What is left to assume of SHA-256
  is that it has no collision among the messages of the run (`CollisionFree`).
* `CommandInv`: what is recorded of a command, and which frames were appended for it.
* `commandLog`: the frames that the events of a run appended for one command of a call.
-/

namespace Keelith.Continuation.Memory

/-! ## The hashed message -/

theorem digestPart_append_inj {a b x y : List UInt8} (ha : a.length < 2 ^ 64)
    (hb : b.length < 2 ^ 64) (h : digestPart a ++ x = digestPart b ++ y) : a = b ∧ x = y := by
  simp only [digestPart, List.append_assoc] at h
  obtain ⟨hlen, hrest⟩ := List.append_inj h (by simp)
  have hpow : (256 : Nat) ^ 8 = 2 ^ 64 := by decide
  have hlen : a.length = b.length :=
    Sha256.bigEndian_inj (by exact ha) (by exact hb) hlen
  exact List.append_inj hrest hlen

theorem digestPart_ne_nil (value : List UInt8) : digestPart value ≠ [] :=
  List.ne_nil_of_length_pos (by simp [digestPart])

theorem kind_text_inj {k k' : FrameKind} (hk : k.valid = true) (hk' : k'.valid = true)
    (h : bytesOf k.text = bytesOf k'.text) : k = k' := by
  cases k with
  | other => cases hk
  | _ =>
    cases k' with
    | other => cases hk'
    | _ => first | rfl | exact absurd h (by decide)

theorem kind_text_length {k : FrameKind} (hk : k.valid = true) :
    (bytesOf k.text).length < 2 ^ 64 := by
  cases k with
  | other => cases hk
  | _ => decide

theorem payload_lt {payload : List UInt8} (h : payload.length ≤ maxPayloadBytes) :
    payload.length < 2 ^ 64 :=
  lt_of_le_of_lt h (by decide)

/-- **The hashed message determines the frames of a transition.** -/
theorem commandMessage_inj {frames frames' : List Frame} (hf : ∀ frame ∈ frames, Appendable frame)
    (hf' : ∀ frame ∈ frames', Appendable frame)
    (h : commandMessage frames = commandMessage frames') : frames = frames' := by
  replace h := List.append_cancel_left h
  induction frames generalizing frames' with
  | nil =>
    cases frames' with
    | nil => rfl
    | cons frame' frames' => simp [digestPart_ne_nil] at h
  | cons frame frames ih =>
    cases frames' with
    | nil => simp [digestPart_ne_nil] at h
    | cons frame' frames' =>
      have h1 := hf frame (by simp)
      have h2 := hf' frame' (by simp)
      simp only [List.flatMap_cons, List.append_assoc] at h
      obtain ⟨hkind, h⟩ := digestPart_append_inj (kind_text_length h1.kind)
        (kind_text_length h2.kind) h
      obtain ⟨hpayload, h⟩ := digestPart_append_inj (payload_lt h1.payload)
        (payload_lt h2.payload) h
      have hkind := kind_text_inj h1.kind h2.kind hkind
      have hframe : frame = frame' := by
        exact Frame.mk.injEq .. ▸ ⟨h1.sequence.trans h2.sequence.symm, hkind, hpayload⟩
      rw [hframe, ih (fun f hm => hf f (by simp [hm])) (fun f hm => hf' f (by simp [hm])) h]

/-! ## Submissions -/

/-- The two commands that callers submit. -/
inductive Submission
  | signal
  | cancel
  deriving DecidableEq

namespace Submission

/-- The command's kind in the record. -/
def kind : Submission → CommandKind
  | .signal => .signal
  | .cancel => .cancel

/-- The frame that the command appends. -/
def frame : Submission → List UInt8 → Frame
  | .signal, payload => ⟨0, .signal, payload⟩
  | .cancel, payload => ⟨0, .cancelRequested, payload⟩

/-- The transition that the store applies. -/
def transition : Submission → String → List UInt8 → Transition
  | .signal, id, payload => Continuation.signal id [frame .signal payload]
  | .cancel, id, payload => Continuation.cancel id [frame .cancel payload]

/-- The store's method. -/
def op : Submission → Context → CommandRequest → Op
  | .signal => .submitSignal
  | .cancel => .requestCancel

/-- What the command hashes. -/
def message (k : Submission) (payload : List UInt8) : List UInt8 := commandMessage [k.frame payload]

/-- What is recorded of the command. -/
def record (k : Submission) (payload : List UInt8) : CommandRecord :=
  { kind := k.kind, digest := sha256 (k.message payload) }

section

variable (k : Submission)

include k

@[simp] theorem transition_commandID (id : String) (payload : List UInt8) :
    (k.transition id payload).commandID = id := by
  cases k <;> rfl

theorem transition_command (id : String) (payload : List UInt8) :
    (k.transition id payload).command ≠ .none := by
  cases k <;> nofun

theorem transitionOk (current : Snapshot) (id : String) (payload : List UInt8) :
    TransitionOk current (k.transition id payload) := by
  cases k <;> exact ⟨rfl, rfl, rfl⟩

theorem commandRecordOf_transition (id : String) (payload : List UInt8) :
    commandRecordOf (k.transition id payload) = k.record payload := by
  cases k <;> rfl

theorem frame_appendable {payload : List UInt8}
    (h : payload.length ≤ maxPayloadBytes) : Appendable (k.frame payload) := by
  cases k <;> exact ⟨rfl, rfl, nofun, h⟩

/-- Two payloads of one command hash different messages. -/
theorem message_inj {p p' : List UInt8} (hp : p.length ≤ maxPayloadBytes)
    (hp' : p'.length ≤ maxPayloadBytes) (h : k.message p = k.message p') : p = p' := by
  have hone : ∀ {payload : List UInt8}, payload.length ≤ maxPayloadBytes →
      ∀ f ∈ [k.frame payload], Appendable f := by
    intro payload hpay f hf
    rw [List.mem_singleton.mp hf]
    exact k.frame_appendable hpay
  have hframes := (List.cons.inj (commandMessage_inj (hone hp) (hone hp') h)).1
  cases k <;> exact (Frame.mk.inj hframes).2.2

end

end Submission

/-- `SubmitSignal` or `RequestCancel`. -/
def Store.submit (s : Store) : Submission → Context → CommandRequest → Except Error Snapshot × Store
  | .signal => s.submitSignal
  | .cancel => s.requestCancel

variable {request : CommandRequest} {S : Set (List UInt8)} {s : Store} {key c : String}
  {k : Submission}

/-- A payload within the frame limit reaches `command`. -/
theorem submit_eq_command (s : Store) (k : Submission) (ctx : Context)
    (h : request.payload.length ≤ maxPayloadBytes) :
    s.submit k ctx request =
      s.command ctx request (k.transition request.commandID request.payload) := by
  have hn : ¬ request.payload.length > maxPayloadBytes := by omega
  cases k <;>
    simp [Store.submit, Store.submitSignal, Store.requestCancel, newFrame, FrameKind.valid, hn,
      Submission.transition, Submission.frame]

/-- A payload above the frame limit is refused before the call is looked up. -/
theorem submit_too_large (s : Store) (k : Submission) (ctx : Context)
    (h : request.payload.length > maxPayloadBytes) :
    s.submit k ctx request = (.error (.sentinel .errInvalidFrame), s) := by
  cases k <;>
    simp [Store.submit, Store.submitSignal, Store.requestCancel, newFrame, h]

/-! ## A recorded command -/

section

variable {record : Snapshot} {ctx : Context} {r : CommandRecord}
  (hrecord : s.records.lookup request.callID = some record)
  (hvalid : SnapshotOk record) (hid : validIdentity request.commandID = true)
  (hpayload : request.payload.length ≤ maxPayloadBytes) (hctx : ctx.cause = none)
  (hcall : request.callID ≠ "") (hrev : request.expectedRevision ≠ 0)

include hrecord hvalid hid hpayload hctx hcall hrev

/-- A recorded command is replayed: the store does not change. -/
theorem submit_replays (hcommand : record.commands.lookup request.commandID =
    some (k.record request.payload)) : s.submit k ctx request = (.ok record, s) := by
  have happly : apply record (k.transition request.commandID request.payload) = .ok record := by
    refine apply_ok_iff.mpr ⟨hvalid, k.transitionOk ..,
      .inl ⟨⟨k.transition_command _ _, ?_, ?_⟩, rfl⟩⟩
    · rwa [k.transition_commandID]
    · rwa [k.transition_commandID, k.commandRecordOf_transition]
  rw [submit_eq_command s k ctx hpayload]
  simp [Store.command, hcall, hrev, hctx, hrecord, happly]

/-- Another command under a recorded identity conflicts: the store does not change. -/
theorem submit_conflicts (hcommand : record.commands.lookup request.commandID = some r)
    (hne : r ≠ k.record request.payload) : ∃ err, s.submit k ctx request = (.error err, s) ∧
    err.is .errCommandConflict = true := by
  have happly : apply record (k.transition request.commandID request.payload) =
      .error (stateError .errCommandConflict record.status
        (k.transition request.commandID request.payload).status) := by
    refine apply_conflict hvalid (k.transitionOk ..) (k.transition_command _ _) ?_
      (show _ = some r from ?_) ?_
    · rwa [k.transition_commandID]
    · rwa [k.transition_commandID]
    · rwa [k.commandRecordOf_transition]
  have hsubmit : s.submit k ctx request = (.error (stateError .errCommandConflict record.status
      (k.transition request.commandID request.payload).status), s) := by
    rw [submit_eq_command s k ctx hpayload]
    simp [Store.command, hcall, hrev, hctx, hrecord, happly]
  exact ⟨_, hsubmit, by simp [stateError, Error.is]⟩

end

/-! ## Runs of applied transitions -/

/-- A snapshot that `Create` gets is valid, one that `Transition` commits is an `Apply` of the
record, and the messages that are hashed for commands are in `S`. -/
def AppliedInput (S : Set (List UInt8)) (s : Store) (i : Input) : Prop :=
  match i.op with
  | .create _ snapshot => SnapshotOk snapshot
  | .transition ctx request => ∀ current, Store.Commits s i.now ctx request current →
      ∃ t, apply current t = .ok request.snapshot ∧
        (t.command ≠ .none → commandMessage t.frames ∈ S)
  | .submitSignal _ request => Submission.signal.message request.payload ∈ S
  | .requestCancel _ request => Submission.cancel.message request.payload ∈ S
  | _ => True

/-- The store under callers that commit only what `Apply` returned. -/
def appliedMachine (S : Set (List UInt8)) : Machine Store Input Output :=
  machine.restrict (AppliedInput S)

/-- What an event of such a run does to the record of the call. -/
inductive RecordStep (S : Set (List UInt8)) (key : String) (e : StoreEvent) : Prop
  | still (record : e.post.records.lookup key = e.pre.records.lookup key)
  | create (snapshot : Snapshot) (valid : SnapshotOk snapshot) (commands : snapshot.commands = ∅)
      (before : e.pre.records.lookup key = none)
      (after : e.post.records.lookup key = some snapshot)
  | remove (removes : Removes key e)
  | applied (current : Snapshot) (t : Transition) (valid : SnapshotOk (advanced current t))
      (fresh : NewCommand current t) (advances : Advances current t)
      (message : t.command ≠ .none → commandMessage t.frames ∈ S)
      (submits : ∀ request, e.input.op.command = some request →
        t.command ≠ .none ∧ t.commandID = request.commandID)
      (before : e.pre.records.lookup key = some current)
      (after : e.post.records.lookup key = some (advanced current t))
  | prune (current pruned : Snapshot) (floor : UInt64)
      (pruneSnapshot : Continuation.pruneSnapshot current floor = .ok pruned)
      (before : e.pre.records.lookup key = some current)
      (after : e.post.records.lookup key = some pruned)

theorem RecordStep.of_apply {e : StoreEvent}
    {current next : Snapshot} {t : Transition} (h : apply current t = .ok next)
    (hne : next.revision ≠ current.revision)
    (message : t.command ≠ .none → commandMessage t.frames ∈ S)
    (submits : ∀ request, e.input.op.command = some request →
      t.command ≠ .none ∧ t.commandID = request.commandID)
    (before : e.pre.records.lookup key = some current)
    (after : e.post.records.lookup key = some next) : RecordStep S key e := by
  obtain ⟨-, -, ⟨-, rfl⟩ | ⟨hn, ha, rfl⟩⟩ := apply_ok_iff.mp h
  · exact absurd rfl hne
  · exact .applied current t (apply_valid h) hn ha message submits before after

theorem recordStep {i : Input} (hi : AppliedInput S s i)
    (key : String) : RecordStep S key (machine.event s i) := by
  cases effect s i key with
  | still record _ => exact .still record
  | create ctx snapshot op _ initial before after _ =>
    have op : i.op = .create ctx snapshot := op
    simp only [AppliedInput, op] at hi
    refine .create snapshot hi ?_ before after
    simp only [initialSnapshot, Bool.and_eq_true, beq_iff_eq] at initial
    have hshape := hi.initial initial.1.1.2
    simp only [initialShape, Bool.and_eq_true, beq_iff_eq] at hshape
    exact Map.size_eq_zero.mp hshape.1.2
  | remove before after _ => exact .remove ⟨before, after⟩
  | claim _ current next _ event granted _ before after _ =>
    obtain ⟨ctx, request, _, op, -⟩ := event
    refine .of_apply granted.apply ?_ (fun h => absurd rfl h) ?_ before after
    · rw [granted.revision]
      exact succ_ne_self _
    · intro r hr
      rw [op] at hr
      cases hr
  | advance t current next command happly revision _ before after _ =>
    rcases command with ⟨hnone, hop⟩ | ⟨ctx, request, hsubmits⟩
    · refine .of_apply happly revision (fun h => absurd hnone h) ?_ before after
      intro r hr
      rw [hop] at hr
      cases hr
    · rcases hsubmits with ⟨hop, rfl⟩ | ⟨hop, rfl⟩
      all_goals
        have hop' : i.op = _ := hop
        simp only [AppliedInput, hop'] at hi
        refine .of_apply happly revision (fun _ => hi) ?_ before after
        intro r hr
        rw [hop] at hr
        obtain rfl := Option.some.inj hr
        refine ⟨fun hnone => ?_, rfl⟩
        cases hnone
  | commit ctx request current op callID _ commits post =>
    have op' : i.op = .transition ctx request := op
    simp only [AppliedInput, op'] at hi
    obtain ⟨t, happly, hmessage⟩ := hi current commits
    refine .of_apply happly ?_ hmessage ?_ (callID ▸ commits.record) ?_
    · rw [commits.follows.revision]
      exact succ_ne_self _
    · intro r hr
      rw [op] at hr
      cases hr
    · rw [post, ← callID]
      simp [Store.committed]
  | prune _ _ floor current pruned _ hprune before after _ =>
    exact .prune current pruned floor hprune before after

/-! ## The frames of a command -/

/-- What is recorded of the command `c` of the call. -/
def Store.commandRecord (s : Store) (key c : String) : Option CommandRecord :=
  (s.records.lookup key).bind fun record => record.commands.lookup c

/-- The event submits the command to the call, or records it. -/
def serves (key c : String) (e : StoreEvent) : Bool :=
  (e.input.op.command.any fun request => request.callID == key && request.commandID == c) ||
    ((e.pre.commandRecord key c).isNone && (e.post.commandRecord key c).isSome)

/-- The frames that the record of the call gains in the event. -/
def gained (key : String) (e : StoreEvent) : List Frame :=
  match e.pre.records.lookup key, e.post.records.lookup key with
  | some before, some after => added before after
  | _, _ => []

/-- The frames that were appended for the command since the call was created. -/
def commandLog (key c : String) (history : List StoreEvent) : List Frame :=
  history.foldl (fun log e =>
    if (e.pre.records.lookup key).isNone then []
    else if serves key c e then log ++ gained key e else log) []

/-- The run started from a store that had the command recorded, and the call was not deleted. -/
def RestoredWith (key c : String) (history : List StoreEvent) (s : Store) : Prop :=
  (Machine.initialState history s).commandRecord key c ≠ none ∧ ∀ e ∈ history, ¬ Removes key e

/-- The log of a command that is recorded as `r`: the frames of the transition that recorded it,
which the call's record has from its floor on. -/
structure Logged (S : Set (List UInt8)) (log : List Frame) (record : Snapshot) (r : CommandRecord) :
    Prop where
  source : ∃ t sequence, r = commandRecordOf t ∧ (∀ frame ∈ t.frames, Appendable frame) ∧
    commandMessage t.frames ∈ S ∧ log = numbered sequence t.frames
  retained : ∀ frame ∈ log, record.frameFloor ≤ frame.sequence → frame ∈ record.frames

/-- The invariant of the command `c` of a call with the record `record`. -/
structure CommandInv (S : Set (List UInt8)) (key c : String) (history : List StoreEvent) (s : Store)
    (record : Snapshot) : Prop where
  valid : SnapshotOk record
  unrecorded : record.commands.lookup c = none → commandLog key c history = []
  recorded : ∀ r, record.commands.lookup c = some r →
    Logged S (commandLog key c history) record r ∨
      (commandLog key c history = [] ∧ RestoredWith key c history s)

section

variable {history : List StoreEvent} {e : StoreEvent}
  {record record' : Snapshot}

theorem commandLog_snoc (hpre : e.pre.records.lookup key = some record) :
    commandLog key c (history ++ [e]) =
      if serves key c e then commandLog key c history ++ gained key e
      else commandLog key c history := by
  simp [commandLog, hpre]

theorem commandLog_snoc_none (hpre : e.pre.records.lookup key = none) :
    commandLog key c (history ++ [e]) = [] := by
  simp [commandLog, hpre]

/-- What keeps the command, the log and the retained frames keeps the invariant. -/
theorem CommandInv.keep {s' : Store} (h : CommandInv S key c history e.pre record)
    (hvalid : SnapshotOk record') (hcommand : record'.commands.lookup c = record.commands.lookup c)
    (hlog : commandLog key c (history ++ [e]) = commandLog key c history)
    (hfloor : record.frameFloor ≤ record'.frameFloor)
    (hframes : ∀ frame ∈ record.frames, record'.frameFloor ≤ frame.sequence →
      frame ∈ record'.frames)
    (hremove : ¬ Removes key e) : CommandInv S key c (history ++ [e]) s' record' := by
  refine ⟨hvalid, fun hn => ?_, fun r hr => ?_⟩
  · rw [hlog]
    exact h.unrecorded (hcommand.symm.trans hn)
  · rw [hlog]
    rcases h.recorded r (hcommand.symm.trans hr) with hlogged | ⟨hnil, hinit, hkept⟩
    · refine .inl ⟨hlogged.source, fun frame hm hle => hframes frame ?_ hle⟩
      exact hlogged.retained frame hm (UInt64.le_trans hfloor hle)
    · exact .inr ⟨hnil, by rwa [Machine.initialState_snoc], forall_mem_snoc.mpr ⟨hkept, hremove⟩⟩

/-- Pruning removes exactly the frames below the new floor. -/
theorem mem_pruned {pruned : Snapshot} {floor : UInt64}
    (h : pruneSnapshot record floor = .ok pruned) : record.frameFloor ≤ pruned.frameFloor ∧
      ∀ frame ∈ record.frames, pruned.frameFloor ≤ frame.sequence → frame ∈ pruned.frames := by
  obtain ⟨hv, hv', floor', n, rfl⟩ := pruneSnapshot_ok h
  have hw := hv.window
  have hw' := hv'.window
  have hpos := hv'.floor
  simp only [List.length_drop] at hw' hpos
  refine ⟨UInt64.le_iff_toNat_le.mpr (by simp only; omega), fun frame hm hle => ?_⟩
  have hle := UInt64.le_iff_toNat_le.mp hle
  simp only at hle
  have hafter : frame ∈ framesAfter record (floor'.toNat - 1) := by
    simp only [framesAfter, List.mem_filter, decide_eq_true_eq]
    exact ⟨hm, by omega⟩
  rw [framesAfter_eq_drop hv] at hafter
  by_cases hn : n ≤ record.frames.length
  · rwa [show floor'.toNat - 1 + 1 - record.frameFloor.toNat = n by omega] at hafter
  · rw [List.drop_eq_nil_of_le (by omega)] at hafter
    cases hafter

theorem added_eq_nil (h : record'.frames.length ≤ record.frames.length) :
    added record record' = [] :=
  List.drop_eq_nil_of_le h

theorem commandLog_of_added (hpre : e.pre.records.lookup key = some record)
    (hpost : e.post.records.lookup key = some record') (h : added record record' = []) :
    commandLog key c (history ++ [e]) = commandLog key c history := by
  rw [commandLog_snoc hpre]
  simp [gained, hpre, hpost, h]

variable {t : Transition}

/-- A transition that does not record the command does not serve it. -/
theorem not_serves {current : Snapshot} (hpre : e.pre.records.lookup key = some current)
    (hpost : e.post.records.lookup key = some (advanced current t))
    (hsubmits : ∀ request, e.input.op.command = some request →
      t.command ≠ .none ∧ t.commandID = request.commandID)
    (hcommand : (advanced current t).commands.lookup c = current.commands.lookup c)
    (hother : ¬ (t.command ≠ .none ∧ t.commandID = c)) : serves key c e = false := by
  unfold serves
  rw [Bool.or_eq_false_iff]
  constructor
  · cases hop : e.input.op.command with
    | none => rfl
    | some request =>
      obtain ⟨hne, hid⟩ := hsubmits request hop
      have : request.commandID ≠ c := fun hc => hother ⟨hne, hid.trans hc⟩
      simp [this]
  · simp only [Store.commandRecord, hpre, hpost, Option.bind_some, hcommand]
    cases current.commands.lookup c <;> rfl

/-- One event keeps the invariant. -/
theorem CommandInv.step (hstep : RecordStep S key e)
    (h : ∀ record, e.pre.records.lookup key = some record →
      CommandInv S key c history e.pre record)
    (hpost : e.post.records.lookup key = some record') :
    CommandInv S key c (history ++ [e]) e.post record' := by
  have hremove : ¬ Removes key e := fun hr => by
    rw [hr.2] at hpost
    cases hpost
  cases hstep with
  | still hrecord =>
    have hpre := hrecord.symm.trans hpost
    exact (h record' hpre).keep (h record' hpre).valid rfl
      (commandLog_of_added hpre hpost (added_eq_nil (le_refl _))) (UInt64.le_refl _)
      (fun _ hm _ => hm) hremove
  | create snapshot valid commands before after =>
    obtain rfl := Option.mem_unique after hpost
    refine ⟨valid, fun _ => commandLog_snoc_none before, fun r hr => ?_⟩
    rw [commands] at hr
    cases hr
  | remove removes => exact absurd removes hremove
  | applied current t valid fresh advances message submits before after =>
    obtain rfl := Option.mem_unique after hpost
    by_cases hc : t.command ≠ .none ∧ t.commandID = c
    · obtain ⟨hne, rfl⟩ := hc
      have hold : current.commands.lookup t.commandID = none := (fresh.resolve_left hne).2
      have hnew := advanced_commands_self current hne
      have hserves : serves key t.commandID e = true := by
        simp [serves, Store.commandRecord, before, after, hold, hnew]
      have hlog : commandLog key t.commandID (history ++ [e]) =
          numbered (current.sequence + 1) t.frames := by
        rw [commandLog_snoc before, if_pos hserves, (h current before).unrecorded hold]
        simp [gained, before, after, added_advanced]
      refine ⟨valid, fun hn => ?_, fun r hr => .inl ?_⟩
      · rw [hnew] at hn
        cases hn
      · obtain rfl := Option.mem_unique hnew hr
        rw [hlog]
        exact ⟨⟨t, _, rfl, advances.frames, message hne, rfl⟩,
          fun frame hm _ => List.mem_append_right _ hm⟩
    · have hcommand := advanced_commands_other current hc
      have hserves := not_serves before after submits hcommand hc
      refine (h current before).keep valid hcommand ?_ (UInt64.le_refl _)
        (fun _ hm _ => List.mem_append_left _ hm) hremove
      rw [commandLog_snoc before, hserves]
      rfl
  | prune current pruned floor hprune before after =>
    obtain rfl := Option.mem_unique after hpost
    obtain ⟨hfloor, hframes⟩ := mem_pruned hprune
    obtain ⟨-, valid, floor', n, rfl⟩ := pruneSnapshot_ok hprune
    refine (h current before).keep valid rfl ?_ hfloor hframes hremove
    exact commandLog_of_added before after (added_eq_nil (by simp))

end

/-- The invariant holds in every run. -/
theorem commandInv_of_run {history : List StoreEvent}
    (h : (appliedMachine S).Run history s) (key c : String) :
    ∀ record, s.records.lookup key = some record → CommandInv S key c history s record := by
  refine h.invariant (I := fun history s => ∀ record, s.records.lookup key = some record →
    CommandInv S key c history s record) ?_ ?_
  · intro s hs record hr
    refine ⟨(recordsOk_of_init hs key record hr).1, fun _ => rfl, fun r hc =>
      .inr ⟨rfl, ?_, by simp⟩⟩
    simp [Store.commandRecord, hr, hc]
  · intro history s i hi hm record' hpost
    exact CommandInv.step (recordStep hm.2 key) hi hpost

/-! ## Accepted commands -/

/-- A submission of the command `c` with the payload `p` to the call that succeeds, as a new command
or as a replay. -/
def Submitted (k : Submission) (key c : String) (p : List UInt8) (e : StoreEvent) : Prop :=
  ∃ ctx revision result, e.input.op = k.op ctx ⟨key, revision, c, p⟩ ∧
    e.output = .snapshot (.ok result)

/-- The command is recorded with the content of a submission that was accepted. -/
structure Kept (S : Set (List UInt8)) (k : Submission) (key c : String) (p : List UInt8)
    (s : Store) : Prop where
  callID : key ≠ ""
  payload : p.length ≤ maxPayloadBytes
  message : k.message p ∈ S
  record : s.commandRecord key c = some (k.record p)

theorem exec_submit (s : Store) (now : Time) (k : Submission) (ctx : Context)
    (request : CommandRequest) : s.exec ⟨now, k.op ctx request⟩ =
      (.snapshot (s.submit k ctx request).1, (s.submit k ctx request).2) := by
  cases k <;> rfl

theorem commandRecord_eq_some : s.commandRecord key c = some r ↔
      ∃ record, s.records.lookup key = some record ∧ record.commands.lookup c = some r := by
  simp [Store.commandRecord, Option.bind_eq_some_iff]

/-- After a successful submission the command is recorded. -/
theorem submit_records {ctx : Context} {result : Snapshot}
    (h : (s.submit k ctx request).1 = .ok result) :
    request.callID ≠ "" ∧ request.payload.length ≤ maxPayloadBytes ∧
      (s.submit k ctx request).2.commandRecord request.callID request.commandID =
        some (k.record request.payload) := by
  have hpayload : request.payload.length ≤ maxPayloadBytes := by
    by_contra hlarge
    rw [submit_too_large s k ctx (by omega)] at h
    cases h
  rw [submit_eq_command s k ctx hpayload] at h ⊢
  refine ⟨fun hempty => by simp [Store.command, hempty] at h, hpayload, ?_⟩
  rw [commandRecord_eq_some]
  rcases Store.command_cases s ctx request (k.transition request.commandID request.payload) with
    ⟨err, hc⟩ | ⟨current, hl, ⟨ha, hc⟩ | ⟨next, ha, hr, -, hc⟩⟩
  · rw [hc] at h
    cases h
  · rw [hc]
    obtain ⟨-, -, ⟨hreplay, -⟩ | ⟨-, -, hself⟩⟩ := apply_ok_iff.mp ha
    · have hrecord := hreplay.record
      rw [k.transition_commandID, k.commandRecordOf_transition] at hrecord
      exact ⟨current, hl, hrecord⟩
    · exact absurd (congrArg Snapshot.revision hself).symm (succ_ne_self _)
  · rw [hc]
    obtain ⟨-, -, ⟨-, rfl⟩ | ⟨-, -, rfl⟩⟩ := apply_ok_iff.mp ha
    · exact absurd rfl hr
    · refine ⟨_, Finmap.lookup_insert _, ?_⟩
      have hself := advanced_commands_self current (k.transition_command request.commandID
        request.payload)
      rwa [k.transition_commandID, k.commandRecordOf_transition] at hself

/-- What is recorded of a command stays until the call is deleted. -/
theorem RecordStep.keeps {e : StoreEvent} (h : RecordStep S key e) (hremove : ¬ Removes key e)
    (hr : e.pre.commandRecord key c = some r) : e.post.commandRecord key c = some r := by
  obtain ⟨record, hl, hr⟩ := commandRecord_eq_some.mp hr
  rw [commandRecord_eq_some]
  cases h with
  | still hrecord => exact ⟨record, hrecord.trans hl, hr⟩
  | create _ _ _ before _ =>
    rw [before] at hl
    cases hl
  | remove removes => exact absurd removes hremove
  | applied current t _ fresh _ _ _ before after =>
    obtain rfl := Option.mem_unique before hl
    refine ⟨_, after, (advanced_commands_other current fun hc => ?_).trans hr⟩
    have hnone := (fresh.resolve_left hc.1).2
    rw [hc.2, hr] at hnone
    cases hnone
  | prune current pruned floor hprune before after =>
    obtain rfl := Option.mem_unique before hl
    obtain ⟨-, -, floor', n, rfl⟩ := pruneSnapshot_ok hprune
    exact ⟨_, after, hr⟩

theorem kept_of_run {history : List StoreEvent} (h : (appliedMachine S).Run history s)
    {p : List UInt8} : Since (Submitted k key c p) (Removes key) history → Kept S k key c p s := by
  refine h.invariant (I := fun history s =>
    Since (Submitted k key c p) (Removes key) history → Kept S k key c p s) ?_ ?_
  · intro s _ hsince
    exact absurd hsince Since.not_nil
  · intro history s i ih hm hsince
    rcases Since.snoc_iff.mp hsince with ⟨ctx, revision, result, hop, hout⟩ | ⟨hsince, hremove⟩
    · obtain ⟨now, op⟩ := i
      obtain rfl : op = k.op ctx ⟨key, revision, c, p⟩ := hop
      have hexec : (appliedMachine S).exec s ⟨now, k.op ctx ⟨key, revision, c, p⟩⟩ = _ :=
        exec_submit s now k ctx ⟨key, revision, c, p⟩
      rw [Machine.event_output, hexec] at hout
      obtain ⟨hcall, hpayload, hrecord⟩ := submit_records (Output.snapshot.inj hout)
      refine ⟨hcall, hpayload, ?_, by rw [hexec]; exact hrecord⟩
      have hinput : AppliedInput S s ⟨now, k.op ctx ⟨key, revision, c, p⟩⟩ := hm.2
      cases k <;> exact hinput
    · have hkept := ih hsince
      exact ⟨hkept.callID, hkept.payload, hkept.message,
        (recordStep hm.2 key).keeps hremove hkept.record⟩

/-! ## Idempotence -/

/-- Commands with different kinds or payloads are recorded differently. -/
theorem record_ne (hS : CollisionFree S) {k' : Submission}
    {p p' : List UInt8} (hp : p.length ≤ maxPayloadBytes) (hp' : p'.length ≤ maxPayloadBytes)
    (hm : k.message p ∈ S) (hm' : k'.message p' ∈ S) (hne : (k', p') ≠ (k, p)) :
    k.record p ≠ k'.record p' := by
  intro heq
  obtain ⟨hkind, hdigest⟩ := CommandRecord.mk.inj heq
  obtain rfl : k = k' := by cases k <;> cases k' <;> first | rfl | cases hkind
  exact hne (by rw [k.message_inj hp hp' (hS hm hm' hdigest)])

/-- The log of a command that a submission recorded is the one frame of the submission. -/
theorem Logged.frame (hS : CollisionFree S) {log : List Frame}
    {record : Snapshot} {p : List UInt8} (hp : p.length ≤ maxPayloadBytes)
    (hm : k.message p ∈ S) (h : Logged S log record (k.record p)) :
    ∃ sequence, log = [{ k.frame p with sequence }] := by
  obtain ⟨t, sequence, heq, happend, hmessage, rfl⟩ := h.source
  obtain ⟨-, hdigest⟩ := CommandRecord.mk.inj heq
  have hframes : [k.frame p] = t.frames := by
    refine commandMessage_inj (fun frame hf => ?_) happend (hS hm hmessage hdigest)
    rw [List.mem_singleton.mp hf]
    exact k.frame_appendable hp
  exact ⟨sequence, by rw [← hframes]; rfl⟩

/-- **Commands are idempotent.** Once the submission of a command has succeeded, and until the call
is deleted: the same submission is answered with the record and changes nothing; another one under
the same identity is refused and changes nothing; and the command's frame was appended exactly once,
unless the store was restored with the command. -/
theorem command_idempotent {S : Set (List UInt8)} (hS : CollisionFree S)
    {history : List StoreEvent} {s : Store} (hrun : (appliedMachine S).Run history s)
    {k : Submission} {key c : String} {p : List UInt8}
    (hsince : Since (Submitted k key c p) (Removes key) history) :
    ∃ record, s.records.lookup key = some record ∧
      (∀ ctx revision, ctx.cause = none → revision ≠ 0 →
        s.submit k ctx ⟨key, revision, c, p⟩ = (.ok record, s)) ∧
      (∀ k' p' ctx revision, ctx.cause = none → revision ≠ 0 → (k', p') ≠ (k, p) →
        (p'.length ≤ maxPayloadBytes → k'.message p' ∈ S →
          ∃ err, s.submit k' ctx ⟨key, revision, c, p'⟩ = (.error err, s) ∧
            err.is .errCommandConflict = true) ∧
        (p'.length > maxPayloadBytes →
          s.submit k' ctx ⟨key, revision, c, p'⟩ = (.error (.sentinel .errInvalidFrame), s))) ∧
      (¬ RestoredWith key c history s → ∃ frame, frame =
        { k.frame p with sequence := frame.sequence } ∧ commandLog key c history = [frame] ∧
        record.frames.count frame = if record.frameFloor ≤ frame.sequence then 1 else 0) := by
  have hkept := kept_of_run hrun hsince
  obtain ⟨record, hl, hr⟩ := commandRecord_eq_some.mp hkept.record
  have hinv := commandInv_of_run hrun key c record hl
  have hid : validIdentity c = true := by
    have hc := hinv.valid.commands c _ hr
    simp only [validCommand, Bool.and_eq_true] at hc
    exact hc.1
  refine ⟨record, hl, ?_, ?_, ?_⟩
  · intro ctx revision hctx hrev
    exact submit_replays hl hinv.valid hid hkept.payload hctx hkept.callID hrev hr
  · intro k' p' ctx revision hctx hrev hne
    refine ⟨fun hp' hm' => ?_, fun hp' => submit_too_large s k' ctx hp'⟩
    exact submit_conflicts hl hinv.valid hid hp' hctx hkept.callID hrev hr
      (record_ne hS hkept.payload hp' hkept.message hm' hne)
  · intro hrestored
    rcases hinv.recorded _ hr with hlogged | ⟨-, hrest⟩
    · obtain ⟨sequence, hlog⟩ := hlogged.frame hS hkept.payload hkept.message
      refine ⟨{ k.frame p with sequence }, rfl, hlog, ?_⟩
      split
      · rename_i hle
        refine List.count_eq_one_of_mem hinv.valid.nodup (hlogged.retained _ ?_ hle)
        rw [hlog]
        exact List.mem_singleton_self _
      · rename_i hle
        exact List.count_eq_zero_of_not_mem fun hm => hle (hinv.valid.floor_le hm)
    · exact absurd hrest hrestored

/-- A call is created and canceled by the command `x`. -/
def canceledCall : List Input :=
  [⟨1, .create .background sampleCall⟩,
   ⟨2, .requestCancel .background ⟨"c", 1, "x", [1]⟩⟩]

/-- The messages of the command `x` with the payloads 1 and 2. -/
def cancelMessages : Set (List UInt8) :=
  {Submission.cancel.message [1], Submission.cancel.message [2]}

theorem cancelMessages_collisionFree : CollisionFree cancelMessages := by
  have hne : sha256 (Submission.cancel.message [1]) ≠ sha256 (Submission.cancel.message [2]) := by
    decide +kernel
  rintro m (rfl | rfl) m' (rfl | rfl) heq
  · rfl
  · exact absurd heq hne
  · exact absurd heq.symm hne
  · rfl

theorem sampleCall_valid : SnapshotOk sampleCall :=
  validateSnapshot_ok_iff.mp rfl

theorem canceledCall_run : (appliedMachine cancelMessages).Run
    ((appliedMachine cancelMessages).trace newStore canceledCall)
    ((appliedMachine cancelMessages).final newStore canceledCall) := by
  have hallows : (appliedMachine cancelMessages).Allows [] newStore canceledCall := by
    refine ⟨⟨fun e he => absurd he List.not_mem_nil, sampleCall_valid⟩, ⟨?_, .inl rfl⟩, trivial⟩
    intro e he
    rw [List.nil_append, List.mem_singleton] at he
    subst he
    decide
  exact (Machine.Run.init (M := appliedMachine cancelMessages) ⟨[], rfl⟩).extend hallows

theorem canceledCall_submitted : Since (Submitted .cancel "c" "x" [1]) (Removes "c")
    ((appliedMachine cancelMessages).trace newStore canceledCall) :=
  ⟨[_], _, [], rfl, ⟨.background, 1, _, rfl, rfl⟩, by simp⟩

/-- A payload above 1 MiB under the identity of an accepted command is not reported as a
conflict. -/
theorem large_payload_no_conflict : ∃ history s, (appliedMachine cancelMessages).Run history s ∧
    Since (Submitted .cancel "c" "x" [1]) (Removes "c") history ∧
    ∃ p' err, p' ≠ [1] ∧ s.submit .cancel .background ⟨"c", 2, "x", p'⟩ = (.error err, s) ∧
      err.is .errCommandConflict = false := by
  have hlarge : (List.replicate (maxPayloadBytes + 1) (0 : UInt8)).length > maxPayloadBytes := by
    simp
  refine ⟨_, _, canceledCall_run, canceledCall_submitted,
    List.replicate (maxPayloadBytes + 1) 0, .sentinel .errInvalidFrame, fun heq => ?_,
    submit_too_large _ _ _ hlarge, rfl⟩
  rw [heq] at hlarge
  exact absurd hlarge (by decide)

/-- The canceled call: `x` again is answered with the record, `x` with another payload conflicts,
and the frame of `x` was appended once. -/
theorem canceledCall_idempotent : ∃ record,
    ((appliedMachine cancelMessages).final newStore canceledCall).submit .cancel .background
        ⟨"c", 99, "x", [1]⟩ =
      (.ok record, (appliedMachine cancelMessages).final newStore canceledCall) ∧
    (∃ err, ((appliedMachine cancelMessages).final newStore canceledCall).submit .cancel .background
        ⟨"c", 99, "x", [2]⟩ =
      (.error err, (appliedMachine cancelMessages).final newStore canceledCall) ∧
      err.is .errCommandConflict = true) ∧
    ∃ frame, commandLog "c" "x" ((appliedMachine cancelMessages).trace newStore canceledCall) =
      [frame] := by
  obtain ⟨record, -, hreplay, hother, hlog⟩ := command_idempotent cancelMessages_collisionFree
    canceledCall_run canceledCall_submitted
  refine ⟨record, hreplay .background 99 rfl (by decide), ?_, ?_⟩
  · exact (hother .cancel [2] .background 99 rfl (by decide) (by decide)).1 (by decide) (.inr rfl)
  · obtain ⟨frame, -, hlog, -⟩ := hlog fun hrestored => hrestored.1 rfl
    exact ⟨frame, hlog⟩

end Keelith.Continuation.Memory

import Keelith.Continuation.Memory.Lease

/-!
# What `Transition` commits

`Apply` and `validSuccessor` are two definitions of a legal next snapshot. This file compares them,
over the runs of the store under callers that hand it valid snapshots (`apiMachine`): `NewSnapshot`,
`NewSnapshotWithInput`, `Apply`, `PruneSnapshot` and `ParseSnapshot` return nothing else.

* `RecordsOk`: every record of such a run is valid and is stored under its own call.
* `newFramesNumbered_numbered`: `validSuccessor` numbers new frames by their index, `Apply` by the
  sequence; the two agree only on a call that still has its first frame.
* `DirectSuccessor`: what makes a snapshot that `Transition` accepts a result of `Apply`. None of
  its conditions is checked by `validSuccessor`.
* `restart_keeps_records`: `NewFromSnapshots` takes the records of such a run and rebuilds them all.
-/

namespace Keelith.Continuation.Memory

/-! ## Valid records -/

/-- The caller hands the store only valid snapshots. -/
def ValidInput (_ : Store) (i : Input) : Prop :=
  match i.op with
  | .create _ snapshot => SnapshotOk snapshot
  | .transition _ request => SnapshotOk request.snapshot
  | _ => True

/-- The store under callers that build their snapshots with the package. -/
def apiMachine : Machine Store Input Output := machine.restrict ValidInput

/-- Every record is valid and is stored under its own call. -/
def RecordsOk (s : Store) : Prop :=
  ∀ key record, s.records.lookup key = some record → SnapshotOk record ∧ record.callID = key

variable {current next : Snapshot} {s : Store}

variable {transition : Transition} {history : List StoreEvent} {expected : UInt64}
  {sequence : UInt64} {record : Snapshot}

theorem apply_callID (h : apply current transition = .ok next) : next.callID = current.callID := by
  obtain ⟨-, -, ⟨-, rfl⟩ | ⟨-, -, rfl⟩⟩ := apply_ok_iff.mp h <;> rfl

theorem RecordsOk.step {i : Input} (h : RecordsOk s) (hi : ValidInput s i) :
    RecordsOk (s.exec i).2 := by
  intro key record hr
  have hexec : (machine.event s i).post = (s.exec i).2 := rfl
  rw [← hexec] at hr
  cases effect s i key with
  | still hrecord _ => exact h key record (hrecord.symm.trans hr)
  | create ctx snapshot op callID _ _ after _ =>
    obtain rfl := Option.mem_unique after hr
    have op : i.op = .create ctx snapshot := op
    simp only [ValidInput, op] at hi
    exact ⟨hi, callID⟩
  | remove _ after _ => rw [after] at hr; cases hr
  | claim _ current next _ _ granted _ before after _ =>
    obtain rfl := Option.mem_unique after hr
    exact ⟨apply_valid granted.apply, granted.callID.trans (h key current before).2⟩
  | advance _ current next _ happly _ _ before after _ =>
    obtain rfl := Option.mem_unique after hr
    exact ⟨apply_valid happly, (apply_callID happly).trans (h key current before).2⟩
  | commit ctx request _ op callID _ _ post =>
    have op : i.op = .transition ctx request := op
    simp only [ValidInput, op] at hi
    subst callID
    rw [post] at hr
    simp only [Store.committed, Finmap.lookup_insert, Option.some.injEq] at hr
    subst hr
    exact ⟨hi, rfl⟩
  | prune _ _ _ current pruned _ hprune before after _ =>
    obtain rfl := Option.mem_unique after hr
    obtain ⟨-, hvalid, floor', n, rfl⟩ := pruneSnapshot_ok hprune
    exact ⟨hvalid, (h key current before).2⟩

theorem recordsOk_of_init (h : machine.init s) : RecordsOk s := by
  obtain ⟨snapshots, hs⟩ := h
  refine newFromSnapshots_rule (P := RecordsOk) (fun key record hr => by
    simp [newStore] at hr) ?_ hs
  intro s snapshot h hv _ key record hr
  simp only [Map.lookup_insert_eq] at hr
  split at hr
  · rename_i hk
    obtain rfl := Option.some.inj hr
    exact ⟨hv, hk.symm⟩
  · exact h key record hr

theorem recordsOk_of_run (h : apiMachine.Run history s) : RecordsOk s := by
  refine h.invariant (I := fun _ s => RecordsOk s) ?_ ?_
  · intro s hs
    exact recordsOk_of_init hs
  · intro history s i hi hm
    exact hi.step hm.2

/-! ## Frames -/

/-- The frame as a transition carries it. -/
def unnumbered (frame : Frame) : Frame := { frame with sequence := 0 }

variable {frames : List Frame}

/-- Valid frames are their own contents, numbered. -/
theorem numbered_unnumbered (h : validFrames expected frames = true) :
    numbered expected (frames.map unnumbered) = frames := by
  induction frames generalizing expected with
  | nil => rfl
  | cons frame frames ih =>
    simp only [validFrames, Bool.and_eq_true, beq_iff_eq] at h
    obtain ⟨⟨⟨⟨hs, -⟩, -⟩, -⟩, hrest⟩ := h
    subst hs
    rw [List.map_cons, numbered, ih hrest]
    rfl

theorem appendable_unnumbered (h : validFrames expected frames = true)
    (hk : ∀ frame ∈ frames, frame.kind ≠ .accepted) :
    ∀ frame ∈ frames.map unnumbered, Appendable frame := by
  induction frames generalizing expected with
  | nil => simp
  | cons head frames ih =>
    simp only [validFrames, Bool.and_eq_true, decide_eq_true_eq] at h
    obtain ⟨⟨⟨⟨-, hv⟩, -⟩, hp⟩, hrest⟩ := h
    intro frame hm
    rcases List.mem_cons.mp hm with rfl | hm
    · exact ⟨rfl, hv, hk head (by simp), hp⟩
    · exact ih hrest (fun f hf => hk f (by simp [hf])) frame hm

/-- The digest of a command does not read the sequences of its frames. -/
theorem commandMessage_unnumbered (frames : List Frame) :
    commandMessage (frames.map unnumbered) = commandMessage frames := by
  simp [commandMessage, List.flatMap_map, unnumbered]

theorem unnumbered_numbered (h : ∀ frame ∈ frames, Appendable frame) :
    (numbered sequence frames).map unnumbered = frames := by
  induction frames generalizing sequence with
  | nil => rfl
  | cons frame frames ih =>
    have hs := (h frame (by simp)).sequence
    rw [numbered, List.map_cons]
    cases frame
    simp_all [unnumbered]

/-! ## Direct successors -/

/-- The frames that `next` adds. -/
def added (current next : Snapshot) : List Frame := next.frames.drop current.frames.length

/-- The command of a direct step: none, or one new command with the digest of the added frames, of a
kind that may change the status so. -/
def DirectCommand (current next : Snapshot) : Prop :=
  (next.commands = current.commands ∧
    allowedTransition current.status next.status .none = true) ∨
  ∃ id kind, kind ≠ .none ∧ validIdentity id = true ∧ current.commands.lookup id = none ∧
    allowedTransition current.status next.status kind = true ∧
    next.commands = current.commands.insert id
      { kind, digest := sha256 (commandMessage (added current next)) }

/-- What `validSuccessor` leaves unchecked of a step from `current` to `next`. -/
structure DirectSuccessor (current next : Snapshot) : Prop where
  live : current.status.terminal = false
  floor : next.frameFloor = current.frameFloor
  frames : ∀ frame ∈ added current next, frame.kind ≠ .accepted
  workflow : next.workflow = current.workflow ∨
    ∃ state, next.workflow = some state ∧
      validateWorkflowSuccessor current.workflow state = .ok ()
  command : DirectCommand current next

theorem added_advanced (current : Snapshot) (transition : Transition) :
    added current (advanced current transition) =
      numbered (current.sequence + 1) transition.frames := by
  simp [added, advanced]

/-- A result of `Apply` at a new revision is a direct successor. -/
theorem direct_of_apply
    (h : apply current transition = .ok next) (hr : next.revision = current.revision + 1) :
    DirectSuccessor current next := by
  obtain ⟨-, ht, ⟨-, rfl⟩ | ⟨hn, ha, rfl⟩⟩ := apply_ok_iff.mp h
  · exact absurd hr.symm (succ_ne_self _)
  refine ⟨ha.live, rfl, ?_, ?_, ?_⟩
  · rw [added_advanced]
    intro frame hm
    have hmem : unnumbered frame ∈ transition.frames := by
      rw [← @unnumbered_numbered (current.sequence + 1) _ ha.frames]
      exact List.mem_map_of_mem hm
    exact (ha.frames _ hmem).notAccepted
  · have hw := ht.workflow
    unfold badWorkflow at hw
    cases hs : transition.workflow with
    | none => exact .inl (by simp [advanced, hs])
    | some state =>
      simp only [hs, Bool.not_eq_false', isOk_iff] at hw
      exact .inr ⟨state, by simp [advanced, hs], hw⟩
  · by_cases hc : transition.command = .none
    · have hallow := ha.allowed
      rw [hc] at hallow
      exact .inl ⟨by simp [advanced, hc], hallow⟩
    · obtain ⟨hid, hnew⟩ := hn.resolve_left hc
      refine .inr ⟨transition.commandID, transition.command, hc, hid, hnew, ha.allowed, ?_⟩
      rw [added_advanced, ← commandMessage_unnumbered, unnumbered_numbered ha.frames]
      simp [advanced, hc, commandRecordOf, commandDigest]

/-- The transition that a direct step from `current` to `next` applies. -/
def directTransition (current next : Snapshot) (commandID : String) (command : CommandKind) :
    Transition :=
  { status := next.status
    frames := (added current next).map unnumbered
    readyAt := next.readyAt
    workflow := if next.workflow = current.workflow then none else next.workflow
    commandID, command }

section

variable (hc : SnapshotOk current) (hn : SnapshotOk next)
  (hf : Follows current next current.fence) (hd : DirectSuccessor current next)

include hf in
theorem frames_eq_append_added : next.frames = current.frames ++ added current next := by
  obtain ⟨rest, hrest⟩ := hf.frames
  rw [added, ← hrest, List.drop_left]

include hc hn hf hd in
theorem validFrames_added : validFrames (current.sequence + 1) (added current next) = true := by
  have h := hn.frames
  rw [frames_eq_append_added hf, hd.floor, validFrames_append, hc.floor_add_length,
    Bool.and_eq_true] at h
  exact h.2

include hc hn hf hd in
theorem toNat_sequence_added :
    next.sequence.toNat = current.sequence.toNat + (added current next).length := by
  have h1 := hc.window
  have h2 := hn.window
  rw [hd.floor, frames_eq_append_added hf, List.length_append] at h2
  omega

include hn in
/-- A valid timer is what `Apply` makes of it. -/
theorem readyAt_normalized : next.readyAt =
    if next.status = .suspended then normalizeReadyAt next.readyAt else Time.zero := by
  cases hz : next.readyAt.isZero with
  | true =>
    have hzero : next.readyAt = Time.zero := by simpa [Time.isZero, Time.zero] using hz
    rw [hzero]
    split <;> rfl
  | false =>
    obtain ⟨hs, hr⟩ := hn.timer hz
    rw [if_pos hs]
    exact hr

include hn hd in
theorem directTransition_ok (id : String) (kind : CommandKind) :
    TransitionOk current (directTransition current next id kind) := by
  refine ⟨hn.status, ?_, ?_⟩
  · cases hz : next.readyAt.isZero with
    | true => simp [badTimer, directTransition, hz]
    | false => simp [badTimer, directTransition, (hn.timer hz).1]
  · by_cases hw : next.workflow = current.workflow
    · simp [badWorkflow, directTransition, hw]
    · obtain ⟨state, hs, hok⟩ := hd.workflow.resolve_left hw
      rw [hs] at hw
      simp [badWorkflow, directTransition, hs, hw, hok, Except.toBool]

include hc hn hf hd in
theorem directTransition_advances (hfence : current.fence ≠ 0) {id : String} {kind : CommandKind}
    (hallow : allowedTransition current.status next.status kind = true) :
    Advances current (directTransition current next id kind) := by
  have hnf : nextFence current (directTransition current next id kind) = current.fence := rfl
  refine ⟨hd.live, hallow, ?_, ?_, ?_, ?_, ?_⟩
  · intro hmax
    have hr := hf.revision
    rw [hmax] at hr
    exact hn.revision hr
  · exact UInt64.le_refl _
  · intro _; rwa [hnf]
  · exact appendable_unnumbered (validFrames_added hc hn hf hd) hd.frames
  · have h1 := toNat_sequence_added hc hn hf hd
    have h2 := toNat_lt_two_pow next.sequence
    simp only [directTransition, List.length_map]
    omega

include hc hn hf hd in
/-- A direct successor is what its transition makes of the record, if the commands agree. -/
theorem eq_advanced {id : String} {kind : CommandKind}
    (hcommands : next.commands = if kind = .none then current.commands
      else current.commands.insert id
        { kind, digest := sha256 (commandMessage (added current next)) }) :
    next = advanced current (directTransition current next id kind) := by
  have hseq := toNat_sequence_added hc hn hf hd
  have hlt := toNat_lt_two_pow next.sequence
  apply Snapshot.ext
  · exact hf.callID
  · exact hf.operation
  · rfl
  · exact readyAt_normalized hn
  · exact hf.revision
  · exact hf.fence
  · apply UInt64.toNat_inj.mp
    show _ = (current.sequence + UInt64.ofNat ((added current next).map unnumbered).length).toNat
    rw [List.length_map, toNat_add_ofNat (by omega), hseq]
  · exact hd.floor
  · show _ = current.frames ++
      numbered (current.sequence + 1) ((added current next).map unnumbered)
    rw [numbered_unnumbered (validFrames_added hc hn hf hd)]
    exact frames_eq_append_added hf
  · rw [hcommands]
    simp only [advanced, directTransition, commandRecordOf, commandDigest,
      commandMessage_unnumbered]
  · simp only [advanced, directTransition]
    by_cases hw : next.workflow = current.workflow
    · simp [hw]
    · obtain ⟨state, hs, -⟩ := hd.workflow.resolve_left hw
      rw [hs] at hw
      simp [hs, hw]

include hc hn hf hd in
theorem apply_of_direct (hfence : current.fence ≠ 0) : ∃ t, apply current t = .ok next := by
  rcases hd.command with ⟨hsame, hallow⟩ | ⟨id, kind, hk, hid, hnew, hallow, hins⟩
  · refine ⟨directTransition current next "" .none, apply_ok_iff.mpr
      ⟨hc, directTransition_ok hn hd _ _, .inr ⟨.inl rfl, ?_, ?_⟩⟩⟩
    · exact directTransition_advances hc hn hf hd hfence hallow
    · exact eq_advanced hc hn hf hd hsame
  · refine ⟨directTransition current next id kind, apply_ok_iff.mpr
      ⟨hc, directTransition_ok hn hd _ _, .inr ⟨.inr ⟨hid, hnew⟩, ?_, ?_⟩⟩⟩
    · exact directTransition_advances hc hn hf hd hfence hallow
    · exact eq_advanced hc hn hf hd (by rw [if_neg hk]; exact hins)

end

/-- The step from `current` to `next` is one `Apply`: in particular a terminal record does not
change and no command is dropped. -/
structure AppliesDirectly (current next : Snapshot) : Prop where
  apply : ∃ t, apply current t = .ok next
  terminal : current.status.terminal = true → next = current
  commands : ∀ id record, current.commands.lookup id = some record →
    next.commands.lookup id = some record

/-- A direct successor keeps the commands of the record. -/
theorem DirectSuccessor.keeps_commands (h : DirectSuccessor current next)
    {id : String} {record : CommandRecord} (hl : current.commands.lookup id = some record) :
    next.commands.lookup id = some record := by
  rcases h.command with ⟨hsame, -⟩ | ⟨new, kind, -, -, hnew, -, hins⟩
  · rwa [hsame]
  · rw [hins, Map.lookup_insert_eq, if_neg]
    · exact hl
    · rintro rfl
      rw [hnew] at hl
      cases hl

/-- **When a commit is one `Apply`.** In every reachable store, for every request with a snapshot
that the package can build: a `Transition` that succeeds writes its snapshot over a record of the
call, and that step is one `Apply` if and only if the snapshot is a `DirectSuccessor` of the
record. -/
theorem transition_applies_directly_iff {history : List StoreEvent} {s : Store}
    (hrun : apiMachine.Run history s) {now : Time} {ctx : Context} {request : CommitRequest}
    {next : Snapshot} (hvalid : SnapshotOk request.snapshot)
    (hok : (s.transition now ctx request).1 = .ok next) :
    ∃ current, s.records.lookup next.callID = some current ∧
      (s.transition now ctx request).2.records.lookup next.callID = some next ∧
      (AppliesDirectly current next ↔ DirectSuccessor current next) := by
  obtain ⟨rfl, -⟩ := Store.transition_ok_iff.mp hok
  rcases Store.transition_cases s now ctx request with ⟨err, he⟩ | ⟨current, hc, he⟩
  · rw [he] at hok; cases hok
  have hfence : current.fence ≠ 0 := by rw [← hc.sameFence]; exact hc.fence
  have hfollows := hc.follows
  rw [hc.sameFence] at hfollows
  have hrecord := (recordsOk_of_run hrun _ current hc.record).1
  refine ⟨current, hc.record, by rw [he]; simp [Store.committed], ?_, ?_⟩
  · rintro ⟨⟨t, ht⟩, -, -⟩
    exact direct_of_apply ht hfollows.revision
  · intro hd
    refine ⟨apply_of_direct hrecord hvalid hfollows hd hfence, ?_, fun _ _ => hd.keeps_commands⟩
    intro hterminal
    rw [hd.live] at hterminal
    cases hterminal

/-- The sample call, completed. -/
def completedCall : Snapshot := { sampleCall with status := .completed, revision := 3, fence := 1 }

/-- `o` claims a call and completes it. -/
def completion : List Input :=
  [⟨1, .create .background sampleCall⟩,
   ⟨1, .claim .background ⟨"c", 1, "o", 10⟩⟩,
   ⟨2, .transition .background ⟨2, 1, "o", Time.zero, completedCall⟩⟩]

theorem completion_run : apiMachine.Run (apiMachine.trace newStore completion)
    (apiMachine.final newStore completion) := by
  have hallows : apiMachine.Allows [] newStore completion := by
    refine ⟨⟨by simp [machine], ?_⟩, ⟨by simp [machine], trivial⟩, ⟨?_, ?_⟩, trivial⟩
    · exact validateSnapshot_ok_iff.mp rfl
    · simp [machine]
    · exact validateSnapshot_ok_iff.mp rfl
  exact (Machine.Run.init (M := apiMachine) ⟨[], rfl⟩).extend hallows

/-- The call is claimed. -/
theorem claimed_run : apiMachine.Run (apiMachine.trace newStore (completion.take 2))
    (apiMachine.final newStore (completion.take 2)) := by
  have hallows : apiMachine.Allows [] newStore (completion.take 2) :=
    ⟨⟨by simp [machine], validateSnapshot_ok_iff.mp rfl⟩, ⟨by simp [machine], trivial⟩, trivial⟩
  exact (Machine.Run.init (M := apiMachine) ⟨[], rfl⟩).extend hallows

/-- The call as a caller can build it who never saw it complete. -/
def reopened : Snapshot := { sampleCall with status := .running, revision := 4, fence := 1 }

/-- A completed call runs again: the snapshot of three `Apply`s from `NewSnapshot` is committed over
the completed record, and no `Apply` leads from that record to it. -/
theorem completed_call_reopens : ∃ first second third current,
    newSnapshot "c" "/s/m" = .ok sampleCall ∧
    apply sampleCall (move .running 1 []) = .ok first ∧
    apply first (move .running 1 []) = .ok second ∧
    apply second (move .running 1 []) = .ok third ∧ third = reopened ∧
    apiMachine.Run (apiMachine.trace newStore completion) (apiMachine.final newStore completion) ∧
    (apiMachine.final newStore completion).records.lookup "c" = some current ∧
    current.status = .completed ∧
    ((apiMachine.final newStore completion).transition 3 .background
      ⟨3, 1, "", Time.zero, reopened⟩).1 = .ok reopened ∧
    ¬ AppliesDirectly current reopened := by
  refine ⟨_, _, _, _, rfl, rfl, rfl, rfl, rfl, completion_run, rfl, rfl, rfl, ?_⟩
  rintro ⟨⟨t, ht⟩, -, -⟩
  have hlive := (direct_of_apply ht rfl).live
  cases hlive

/-- The commit of `o` in `completion` is one `Apply`. -/
theorem completion_applies_directly : ∃ running,
    (apiMachine.final newStore (completion.take 2)).records.lookup "c" = some running ∧
    AppliesDirectly running completedCall := by
  obtain ⟨running, hl, -, hiff⟩ := @transition_applies_directly_iff _ _ claimed_run 2 .background
    ⟨2, 1, "o", Time.zero, completedCall⟩ completedCall (validateSnapshot_ok_iff.mp rfl) rfl
  refine ⟨running, hl, hiff.mpr ?_⟩
  obtain rfl := Option.some.inj hl
  refine ⟨rfl, rfl, ?_, .inl rfl, .inl ⟨rfl, rfl⟩⟩
  intro frame hm
  cases hm

/-! ## Accepted results of `Apply` -/

/-- The frames that `Apply` appends pass the index check of `validSuccessor` if there are none, or
if the sequence is the index. -/
theorem newFramesNumbered_numbered {index : Nat} :
    newFramesNumbered index (numbered sequence frames) = true ↔
      frames = [] ∨ sequence = UInt64.ofNat (index + 1) := by
  induction frames generalizing index sequence with
  | nil => simp [numbered, newFramesNumbered]
  | cons frame frames ih =>
    simp only [numbered, newFramesNumbered, Bool.and_eq_true, beq_iff_eq, ih, reduceCtorEq,
      false_or]
    constructor
    · exact fun h => h.1
    · rintro rfl
      exact ⟨rfl, .inr (by rw [UInt64.ofNat_add (index + 1)]; rfl)⟩

/-- On a valid record the next sequence is the next index exactly if no frame was pruned. -/
theorem sequence_eq_index_iff (h : SnapshotOk record) (hlt : record.sequence.toNat + 1 < 2 ^ 64) :
    record.sequence + 1 = UInt64.ofNat (record.frames.length + 1) ↔ record.frameFloor = 1 := by
  have hw := h.window
  have hf := h.floor
  rw [← UInt64.toNat_inj, ← UInt64.toNat_inj, toNat_succ (ne_maxUint64_iff.mpr hlt),
    toNat_ofNat_lt (by omega), UInt64.toNat_one]
  omega

/-- A live lease stands at a fence that was allocated, so not at zero. -/
theorem live_lease_fence (hrun : machine.Run history s)
    {key : String} {lease : LeaseRecord} (hl : s.leases.lookup key = some lease) {now : Time}
    (hclock : ∀ e ∈ history, e.input.now ≤ now) (ho : lease.owner ≠ "")
    (hlive : now < lease.deadline) : lease.fence ≠ 0 := by
  obtain ⟨before, e, after, he, hclaim, -⟩ :=
    (leaseInv_of_run hrun key lease hl).since hclock ho hlive
  obtain ⟨-, -, hevent⟩ := hrun.split he
  rw [hevent] at hclaim
  obtain ⟨current, -, -, -, -, -, hf⟩ := grants_spec (.inl ⟨_, hclaim⟩)
  exact ne_zero_of_pos (by omega)

/-- The result of a transition that keeps the fence passes `validSuccessor` if it adds no frame or
no frame was pruned. -/
theorem follows_advanced_iff {t : Transition} (hr : SnapshotOk record)
    (ha : Advances record t) (hfence : t.fence = 0 ∨ t.fence = record.fence) :
    Follows record (advanced record t) record.fence ↔ t.frames = [] ∨ record.frameFloor = 1 := by
  have hnext : nextFence record t = record.fence := by
    rcases hfence with h | h <;> simp [nextFence, h]
  have hnumbered : newFramesNumbered record.frames.length
      ((advanced record t).frames.drop record.frames.length) = true ↔
      t.frames = [] ∨ record.frameFloor = 1 := by
    show newFramesNumbered _ (added record (advanced record t)) = true ↔ _
    rw [added_advanced, newFramesNumbered_numbered]
    by_cases hnil : t.frames = []
    · simp [hnil]
    · have hpos : 0 < t.frames.length := List.length_pos_iff.mpr hnil
      have hlt := ha.sequence
      rw [sequence_eq_index_iff hr (by omega)]
  constructor
  · exact fun h => hnumbered.mp h.numbered
  · intro h
    refine ⟨rfl, rfl, rfl, hnext, ?_, List.prefix_append _ _, hnumbered.mpr h⟩
    rw [UInt64.le_iff_toNat_le, ha.toNat_sequence]
    omega

/-- **When `Transition` accepts a result of `Apply`.** In every reachable store, take a record under
a live lease of `owner` and a transition `t` of the executor that keeps the fence and that `Apply`
accepts. Committing the result under the lease succeeds if and only if `t` adds no frame or the
record still has its first frame. -/
theorem transition_accepts_apply_iff {history : List StoreEvent} {s : Store}
    (hrun : apiMachine.Run history s) {key owner : String} {record next : Snapshot}
    {lease : LeaseRecord} {t : Transition} {now expiresAt : Time} {ctx : Context}
    (hclock : ∀ e ∈ history, e.input.now ≤ now) (hctx : ctx.cause = none)
    (hrecord : s.records.lookup key = some record) (hlease : s.leases.lookup key = some lease)
    (howner : lease.owner = owner) (hne : owner ≠ "") (hlive : now < lease.deadline)
    (hcommand : t.command = .none) (hfence : t.fence = 0 ∨ t.fence = record.fence)
    (happly : apply record t = .ok next)
    (hexpires : expiresAt.isZero = true ∨ next.status.terminal = true) :
    ((s.transition now ctx ⟨record.revision, record.fence, owner, expiresAt, next⟩).1 = .ok next ∧
      (s.transition now ctx ⟨record.revision, record.fence, owner, expiresAt,
        next⟩).2.records.lookup key = some next) ↔ t.frames = [] ∨ record.frameFloor = 1 := by
  obtain ⟨hvalid, -, ⟨hreplay, -⟩ | ⟨-, hadv, rfl⟩⟩ := apply_ok_iff.mp happly
  · exact absurd hcommand hreplay.command
  obtain rfl : record.callID = key := (recordsOk_of_run hrun key record hrecord).2
  have hmachine : machine.Run history s := hrun.of_restrict
  obtain ⟨r, hr, hrev, hfen⟩ := (leaseInv_of_run hmachine _ lease hlease).record
  obtain rfl := Option.mem_unique hrecord hr
  have hlf := live_lease_fence hmachine hlease hclock (by rwa [howner]) hlive
  rw [← follows_advanced_iff hvalid hadv hfence]
  constructor
  · rintro ⟨hok, -⟩
    obtain ⟨-, current, hc⟩ := Store.transition_ok_iff.mp hok
    obtain rfl := Option.mem_unique hrecord hc.record
    exact hc.follows
  · intro hfollows
    have hid : record.callID ≠ "" := by
      intro h0
      have := hvalid.callID
      rw [h0] at this
      exact absurd this (by decide)
    have hcommits : Store.Commits s now ctx
        ⟨record.revision, record.fence, owner, expiresAt, advanced record t⟩ record := by
      refine ⟨hctx, hvalid.revision, by rwa [hfen] at hlf, hid, hexpires, hrecord, ?_, rfl, rfl,
        hfollows⟩
      show Store.leaseAdmits (s.leases.lookup record.callID) now _ = true
      rw [hlease]
      simp [Store.leaseAdmits, hne, howner, hrev, hfen, hlive]
    have hok := Store.transition_ok_iff.mpr ⟨rfl, record, hcommits⟩
    refine ⟨hok, ?_⟩
    rcases Store.transition_cases s now ctx
      ⟨record.revision, record.fence, owner, expiresAt, advanced record t⟩ with ⟨err,
        he⟩ | ⟨_, _, he⟩
    · rw [he] at hok; cases hok
    · rw [he]
      exact Finmap.lookup_insert _

/-- An event frame, as a transition carries it. -/
def sampleFrame : Frame := ⟨0, .event, [7]⟩

/-- A running call with two frames. -/
def framedCall : Snapshot :=
  { sampleCall with
    status := .running, revision := 3, fence := 1, sequence := 2
    frames := [⟨1, .event, [7]⟩, ⟨2, .event, [7]⟩] }

/-- The call without its first frame. -/
def prunedCall : Snapshot :=
  { framedCall with frameFloor := 2, frames := [⟨2, .event, [7]⟩] }

/-- The store of the pruned call, after `o` claimed it. -/
def claimedPruned : Store :=
  ({ newStore with records := newStore.records.insert "c" prunedCall }.claim 1 .background
    ⟨"c", 3, "o", 10⟩).2

/-- A restored call that was pruned while it ran cannot commit a frame: `o` holds its lease and
`Apply` accepts the frame, but `Transition` refuses the result. -/
theorem pruned_call_cannot_commit : ∃ record next, pruneSnapshot framedCall 2 = .ok prunedCall ∧
    newFromSnapshots [prunedCall] =
      .ok { newStore with records := newStore.records.insert "c" prunedCall } ∧
    claimedPruned.records.lookup "c" = some record ∧
    (claimedPruned.leases.lookup "c").map (fun lease => (lease.owner, lease.deadline)) =
      some ("o", 11) ∧
    apply record (move .running record.fence [sampleFrame]) = .ok next ∧
    (claimedPruned.transition 2 .background
      ⟨record.revision, record.fence, "o", Time.zero, next⟩).1 =
      .error (.sentinel .errInvalidStore) :=
  ⟨_, _, rfl, rfl, rfl, rfl, rfl, rfl⟩

/-- The sample call, claimed by `o`. -/
def runningCall : Snapshot := { sampleCall with status := .running, revision := 2, fence := 1 }

/-- The claimed call with one frame. -/
def oneFrameCall : Snapshot :=
  { runningCall with revision := 3, sequence := 1, frames := [⟨1, .event, [7]⟩] }

/-- On a call that still has its first frame, `o` commits a frame. -/
theorem unpruned_call_commits : apply runningCall (move .running 1 [sampleFrame]) =
    .ok oneFrameCall ∧ ((apiMachine.final newStore (completion.take 2)).transition 2 .background
      ⟨2, 1, "o", Time.zero, oneFrameCall⟩).1 = .ok oneFrameCall := by
  have hclock : ∀ e ∈ apiMachine.trace newStore (completion.take 2), e.input.now ≤ 2 := by
    intro e he
    simp only [completion, List.take, Machine.trace, List.mem_cons,
      List.not_mem_nil, or_false] at he
    rcases he with rfl | rfl <;> decide
  have hrecord : (apiMachine.final newStore (completion.take 2)).records.lookup "c" =
      some runningCall := rfl
  have hlease : (apiMachine.final newStore (completion.take 2)).leases.lookup "c" =
      some { owner := "o", deadline := 11, revision := 2, fence := 1, previousRevision := 1 } := rfl
  have happly : apply runningCall (move .running 1 [sampleFrame]) = .ok oneFrameCall := rfl
  have hiff := @transition_accepts_apply_iff _ _ claimed_run "c" "o" runningCall oneFrameCall _
    (move .running 1 [sampleFrame]) 2 Time.zero .background hclock rfl hrecord hlease rfl
    (by decide) (by decide) rfl (.inr rfl) happly (.inl rfl)
  exact ⟨happly, (hiff.mpr (.inr rfl)).1⟩

/-! ## Restarts -/

/-- The loop of `NewFromSnapshots` takes valid snapshots of distinct calls, and stores each. -/
theorem restore_all {snapshots : List Snapshot} (hvalid : ∀ x ∈ snapshots, SnapshotOk x)
    (hnodup : (snapshots.map (·.callID)).Nodup)
    (hfresh : ∀ x ∈ snapshots, s.records.lookup x.callID = none) :
    ∃ records, snapshots.foldlM restore s = .ok { s with records := records } ∧
      ∀ key x, records.lookup key = some x ↔
        s.records.lookup key = some x ∨ x ∈ snapshots ∧ x.callID = key := by
  induction snapshots generalizing s with
  | nil => exact ⟨s.records, rfl, by simp⟩
  | cons first snapshots ih =>
    rw [List.map_cons, List.nodup_cons] at hnodup
    have hnone := hfresh first List.mem_cons_self
    have hrestore : restore s first =
        .ok { s with records := s.records.insert first.callID first } := by
      simp [restore, validateSnapshot_ok_iff.mpr (hvalid first List.mem_cons_self), hnone]
    obtain ⟨records, hrun, hrecords⟩ :=
      ih (s := { s with records := s.records.insert first.callID first })
      (fun x hx => hvalid x (List.mem_cons_of_mem _ hx)) hnodup.2 (fun x hx => by
        have hne : x.callID ≠ first.callID := fun h => hnodup.1 (h ▸ List.mem_map_of_mem hx)
        rw [Map.lookup_insert_eq, if_neg hne]
        exact hfresh x (List.mem_cons_of_mem _ hx))
    refine ⟨records, by rw [List.foldlM_cons, hrestore]; exact hrun, fun key x => ?_⟩
    rw [hrecords, Map.lookup_insert_eq]
    by_cases hk : key = first.callID <;> grind

/-- **A restart loses no record.** Take any store that callers with valid snapshots reach, and its
records in any order: `NewFromSnapshots` accepts them, and rebuilds the store without its leases and
expiry times. -/
theorem restart_keeps_records (hrun : apiMachine.Run history s) {snapshots : List Snapshot}
    (hnodup : snapshots.Nodup) (hall : ∀ x, x ∈ snapshots ↔ ∃ key, s.records.lookup key = some x) :
    newFromSnapshots snapshots = .ok { newStore with records := s.records } := by
  have hok := recordsOk_of_run hrun
  have hkey (x : Snapshot) (hx : x ∈ snapshots) :
      SnapshotOk x ∧ s.records.lookup x.callID = some x := by
    obtain ⟨key, hl⟩ := (hall x).mp hx
    obtain ⟨hvalid, rfl⟩ := hok key x hl
    exact ⟨hvalid, hl⟩
  -- two snapshots of one call are one record
  have hcalls : (snapshots.map (·.callID)).Nodup := hnodup.map_on fun x hx y hy h =>
    Option.mem_unique (hkey x hx).2 (h ▸ (hkey y hy).2)
  obtain ⟨records, hrestored, hrecords⟩ :=
    @restore_all newStore snapshots (fun x hx => (hkey x hx).1)
    hcalls (fun x _ => by simp [newStore])
  have heq : records = s.records := Finmap.ext_lookup fun key => Option.ext fun x => by
    rw [hrecords]
    refine ⟨?_, fun hl => .inr ⟨(hall x).mpr ⟨key, hl⟩, (hok key x hl).2⟩⟩
    rintro (hl | ⟨hx, rfl⟩)
    · simp [newStore] at hl
    · exact (hkey x hx).2
  rw [newFromSnapshots, hrestored, heq]

/-- The completed call is there after a restart. -/
theorem completed_call_restored : newFromSnapshots [completedCall] =
    .ok { newStore with records := (apiMachine.final newStore completion).records } := by
  refine restart_keeps_records completion_run (List.nodup_singleton _) fun x => ?_
  have hrecords : (apiMachine.final newStore completion).records =
      (((∅ : Finmap fun _ => Snapshot).insert "c" sampleCall).insert "c"
        { sampleCall with status := .running, revision := 2, fence := 1 }).insert
        "c" completedCall := rfl
  simp [hrecords, Map.lookup_insert_eq, eq_comm]

end Keelith.Continuation.Memory

import Keelith.Continuation.Memory.Lease
import Keelith.Continuation.Workflow.Safety

/-!
# Durable timers

A deadline on its way from a request to the pass that acts on it.

* `le_normalizeReadyAt`: rounding to the storage precision moves no deadline back.
* The store: `Claim`, `Acquire` and `ListReady` skip a suspended call before its deadline
  (`OnTime`). A repeated `Claim` of a live lease does not ask the clock; a leased call is not
  suspended (`LeasedInv`).
* The workflow: only the timer loop of a pass makes a timer succeed (`TimersKeep`), and it compares
  the wake time of the pass with the deadline that the plan wrote.
-/

namespace Keelith.Continuation

/-! ## Rounding -/

/-- Storage precision never moves a deadline earlier. -/
theorem le_normalizeReadyAt (value : Time) : value ≤ normalizeReadyAt value := by
  unfold normalizeReadyAt Time.isZero Time.truncate microsecond Time.zero
  simp only [Time] at *
  split
  next hzero => exact le_of_eq (by simpa using hzero)
  next => split <;> omega

/-- The call is suspended until a later instant. -/
def Snapshot.Early (s : Snapshot) (now : Time) : Prop :=
  s.status = .suspended ∧ s.readyAt.isZero = false ∧ now < s.readyAt

theorem Snapshot.not_early_of_due {s : Snapshot} {now : Time} (h : s.timerDue now = true) :
    ¬ s.Early now := by
  rintro ⟨-, hzero, hlt⟩
  simp [timerDue, hzero, hlt] at h

/-! ## The store -/

namespace Memory

/-- A lease stands on a call that runs or that is to be canceled. -/
def LeasedInv (s : Store) : Prop :=
  ∀ key lease, s.leases.lookup key = some lease →
    ∃ record, s.records.lookup key = some record ∧
      (record.status = .running ∨ record.status = .cancelRequested)

variable {current next : Snapshot} {now : Time} {s : Store} {history : List StoreEvent}

theorem Store.Granted.status (h : Store.Granted now current next) :
    next.status = .running ∨ next.status = .cancelRequested := by
  obtain ⟨-, -, ⟨hr, -⟩ | ⟨-, -, rfl⟩⟩ := apply_ok_iff.mp h.apply
  · exact absurd rfl hr.command
  · show (grantTransition current).status = .running ∨
      (grantTransition current).status = .cancelRequested
    unfold grantTransition move
    split
    · exact .inr rfl
    · exact .inl rfl

theorem LeasedInv.step (h : LeasedInv s) (i : Input) : LeasedInv (s.exec i).2 := by
  intro key lease hlease
  have hexec : (machine.event s i).post = (s.exec i).2 := rfl
  have hpre : (machine.event s i).pre = s := rfl
  rw [← hexec] at hlease ⊢
  cases effect s i key with
  | still record lease' =>
    rw [record]
    rcases lease' with hsame | ⟨hnone, -⟩ | ⟨l, deadline, hl, -, -⟩
    · rw [hsame] at hlease
      exact h key lease hlease
    · rw [hnone] at hlease
      cases hlease
    · exact h key l hl
  | create ctx snapshot op callID initial before after lease' =>
    rw [lease'] at hlease
    obtain ⟨record, hrecord, -⟩ := h key lease hlease
    rw [hpre, hrecord] at before
    cases before
  | remove before after lease' | advance _ _ _ _ _ _ _ _ _ lease' =>
    rw [lease'] at hlease
    cases hlease
  | claim owner current next deadline event granted free before after lease' =>
    exact ⟨next, after, granted.status⟩
  | commit ctx request current op callID output commits post =>
    rw [post] at hlease ⊢
    simp only [Store.committed, callID, Finmap.lookup_insert] at hlease ⊢
    split at hlease
    next hrunning => exact ⟨_, rfl, .inl hrunning⟩
    next => simp at hlease
  | prune ctx callID floor current pruned op prune before after lease' =>
    rw [lease'] at hlease
    obtain ⟨record, hrecord, hstatus⟩ := h key lease hlease
    rw [hpre, hrecord] at before
    obtain rfl := Option.some.inj before
    obtain ⟨-, -, floor', n, rfl⟩ := pruneSnapshot_ok prune
    exact ⟨_, after, hstatus⟩

theorem leasedInv_of_run (h : machine.Run history s) : LeasedInv s := by
  refine h.invariant (I := fun _ s => LeasedInv s) ?_ fun _ s i hinv _ => hinv.step i
  rintro s ⟨snapshots, hs⟩ key lease hl
  rw [newFromSnapshots_leases hs] at hl
  simp at hl

/-- No suspended call is granted or listed before its deadline. -/
structure OnTime (e : StoreEvent) : Prop where
  claim : ∀ ctx request lease current, e.input.op = .claim ctx request →
    e.output = .lease (.ok lease) →
    e.pre.records.lookup request.callID = some current → ¬ current.Early e.input.now
  acquire : ∀ ctx callID revision snapshot current, e.input.op = .acquire ctx callID revision →
    e.output = .snapshot (.ok snapshot) → e.pre.records.lookup callID = some current →
      ¬ current.Early e.input.now
  listReady : ∀ ctx limit snapshots, e.input.op = .listReady ctx limit →
    e.output = .snapshots (.ok snapshots) →
    ∀ snapshot ∈ snapshots, ¬ snapshot.Early e.input.now

theorem Store.Granted.not_early (h : Store.Granted now current next) : ¬ current.Early now := by
  have htimer := h.timer
  unfold timerNotReady at htimer
  split at htimer
  next hdue => exact current.not_early_of_due hdue
  next => cases htimer

theorem listReady_not_early {ctx : Context} {limit : Int} {snapshots : List Snapshot}
    (h : s.listReady now ctx limit = .ok snapshots) :
    ∀ snapshot ∈ snapshots, ¬ snapshot.Early now := by
  intro snapshot hm
  obtain ⟨key, hdue, hlookup⟩ := Store.mem_listReady s h hm
  simp only [Store.listable, hlookup, Option.any_some, Bool.and_eq_true] at hdue
  exact snapshot.not_early_of_due hdue.1.2

/-- Every call of the store is on time. -/
theorem onTime_event (h : LeasedInv s) (i : Input) : OnTime (machine.event s i) := by
  obtain ⟨now, op⟩ := i
  refine ⟨?_, ?_, ?_⟩
  · rintro ctx request lease current rfl hout hcurrent
    rcases Store.claim_cases s now ctx request with
      ⟨err, hclaim⟩ | ⟨-, record, hrecord, ⟨old, hold, -, -, -, -⟩ | ⟨-, -, next, hgranted, -⟩⟩
    · simp [hclaim] at hout
    · -- the owner of a live lease repeats its claim
      obtain ⟨leased, hleased, hstatus⟩ := h _ old hold
      obtain rfl : leased = current := Option.mem_unique hleased hcurrent
      rintro ⟨hsuspended, -⟩
      rw [hsuspended] at hstatus
      rcases hstatus with hs | hs <;> cases hs
    · obtain rfl : record = current := Option.mem_unique hrecord hcurrent
      exact hgranted.not_early
  · rintro ctx callID revision snapshot current rfl hout hcurrent
    rcases Store.acquire_cases s now ctx callID revision with
      ⟨err, hacquire⟩ | ⟨record, hrecord, -, -, ⟨err, hacquire⟩ | ⟨next, hgranted, -⟩⟩
    · simp [hacquire] at hout
    · simp [hacquire] at hout
    · obtain rfl : record = current := Option.mem_unique hrecord hcurrent
      exact hgranted.not_early
  · rintro ctx limit snapshots rfl hout
    exact listReady_not_early (Output.snapshots.inj hout)

theorem onTime_of_run (h : machine.Run history s) : ∀ e ∈ history, OnTime e :=
  h.events fun _ _ i hrun _ => onTime_event (leasedInv_of_run hrun) i

end Memory

/-! ## The workflow -/

/-- A timer that has succeeded had succeeded before. -/
def TimersKeep (d : WorkflowDefinition) (state state' : WorkflowSnapshotState) : Prop :=
  ∀ spec ∈ d.nodes, spec.kind = .timer → (state'.node spec.id).status = .succeeded →
    (state.node spec.id).status = .succeeded

/-- A timer that has succeeded had succeeded before, or the wake time has reached its deadline. -/
def TimersFire (d : WorkflowDefinition) (wake : Time)
    (state state' : WorkflowSnapshotState) : Prop :=
  ∀ spec ∈ d.nodes, spec.kind = .timer → (state'.node spec.id).status = .succeeded →
    (state.node spec.id).status = .succeeded ∨ deadline state.startedAt spec ≤ wake

section

variable {σ : Type} {rt : WorkflowRuntime σ} {d : WorkflowDefinition} {parent : CallID}
  {p p' : Pass σ}
  {state state' state'' : WorkflowSnapshotState} {spec : WorkflowNodeSpec} {s : Snapshot}
  {startedAt : Time}

theorem TimersKeep.refl : TimersKeep d state state := fun _ _ _ => id

theorem TimersKeep.trans (h : TimersKeep d state state') (h' : TimersKeep d state' state'') :
    TimersKeep d state state'' :=
  fun spec hspec hkind hs => h spec hspec hkind (h' spec hspec hkind hs)

/-- No command completes a timer with success. -/
theorem Executes.timer {command : WorkflowCommand} {node node' : WorkflowNodeState}
    (h : Executes rt parent command node node') (hplanned : Planned state parent spec command)
    (hkind : spec.kind = .timer) : node'.status ≠ .succeeded := by
  have hstarts : command.completeStatus = none → command.kind = .timer := fun hnone =>
    (hplanned.starts hnone).2.kind.trans hkind
  cases h with
  | @complete status hstatus =>
    cases hplanned with
    | join kind =>
      rw [hkind] at kind
      cases kind
    | failFast =>
      cases hstatus
      exact nofun
    | start _ _ starts =>
      rw [starts.complete] at hstatus
      cases hstatus
  | arm | wait => exact nofun
  | observe hnone kind | handle hnone kind =>
    rw [hstarts hnone] at kind
    cases kind

theorem skipNonTerminalWorkflowNodes_timers (h : StateInv d parent state) :
    TimersKeep d state (skipNonTerminalWorkflowNodes state) := by
  intro spec hspec _ hs
  rw [(skipNonTerminalWorkflowNodes_inv h).2.2 spec hspec] at hs
  unfold skipNode at hs
  split at hs
  · exact hs
  · cases hs

/-- The timer loop of `reconcile` meets the deadlines that were planned. -/
theorem fireTimers_timers (h : StateInv d parent p.state) (wake : Time) :
    TimersFire d wake p.state (fireTimers wake p).state := by
  intro spec hspec hkind hs
  have hinv := h.node spec hspec
  have hnode : (fireTimers wake p).state.node spec.id = fireTimer wake (p.state.node spec.id) :=
    h.node_mapValues _ hspec
  rw [hnode] at hs
  unfold fireTimer at hs
  split at hs
  · rename_i hdue
    rcases hinv.waiting hdue.2.1 with ⟨-, hready⟩ | ⟨hchild, -⟩
    · rw [← hready]
      exact .inr (not_lt.mp hdue.2.2.2)
    · rw [hkind] at hchild
      cases hchild
  · exact .inl hs

section

variable (hd : DefinitionOk d)

include hd

/-- The node of another kind, or one that has not succeeded, is written. -/
theorem TimersKeep.setNode (hspec : spec ∈ d.nodes) {node : WorkflowNodeState}
    (hid : node.id = spec.id) (hnode : spec.kind = .timer → node.status ≠ .succeeded) :
    TimersKeep d state (state.setNode node) :=
  hd.forall_setNode (P := fun spec node => spec.kind = .timer → node.status = .succeeded →
    (state.node spec.id).status = .succeeded) hspec hid (fun _ _ _ => id) fun hkind hs =>
      absurd hs (hnode hkind)

section

variable (h : StateInv d parent p.state)

include h

theorem refreshWaitingChildren_timers {order : List String}
    (hok : refreshWaitingChildren rt order p = (.ok (), p')) : TimersKeep d p.state p'.state := by
  induction order generalizing p with
  | nil =>
    obtain ⟨-, rfl⟩ := Prod.mk.inj hok
    exact .refl
  | cons id order ih =>
    unfold refreshWaitingChildren at hok
    dsimp only at hok
    split at hok
    swap
    · exact ih h hok
    rename_i hwaits
    have hchild := refreshChild_ok rt h hwaits.1 hwaits.2
    obtain ⟨-, heffect⟩ := refreshChild_effect rt id p
    split at hok
    · cases hok
    rename_i q hq
    rw [hq] at hchild heffect
    refine .trans ?_ (ih ((hchild.reaches () rfl).evolves hd h).1 hok)
    obtain ⟨spec, hspec, rfl⟩ := h.spec_of_waiting hwaits.2
    have hinv := h.node spec hspec
    rcases (heffect rfl).2 with hsame | ⟨status, -, hstate⟩
    · rw [show q.state = p.state from hsame]
      exact .refl
    · have hkeep : TimersKeep d p.state
        (p.state.setNode (observedNode (p.state.node spec.id) status)) := by
        refine .setNode hd hspec (by simpa using hinv.id) fun htimer => ?_
        rw [hinv.kind, htimer] at hwaits
        cases hwaits.1
      rw [show q.state = _ from hstate]
      unfold WorkflowSnapshotState.setNode at hkeep
      rwa [observedNode_id, hinv.id] at hkeep

theorem executeCommands_timers {actions actions' : Nat}
    {commands : List WorkflowCommand} (hplan : PlanOk d parent p.state commands)
    (hok : executeCommands rt parent actions p commands = (.ok actions', p')) :
    TimersKeep d p.state p'.state := by
  induction commands generalizing p actions with
  | nil =>
    obtain ⟨-, rfl⟩ := Prod.mk.inj hok
    exact .refl
  | cons command commands ih =>
    obtain ⟨hfirst, hrest⟩ := executeCommand_ok rt hd h hplan
    have heffect := executeCommand_effect rt parent command p
    unfold executeCommands at hok
    split at hok
    · obtain ⟨-, rfl⟩ := Prod.mk.inj hok
      exact .refl
    split at hok
    · cases hok
    rename_i q hq
    rw [hq] at hfirst hrest heffect
    refine .trans ?_ (ih ((hfirst.reaches () rfl).evolves hd h).1 (hrest rfl) hok)
    obtain ⟨spec, hspec, -, hplanned⟩ := hplan.planned command (by simp)
    obtain ⟨node', hexec, hstate⟩ := heffect.state rfl
    rw [hplanned.nodeID] at hexec
    rw [show q.state = _ from hstate]
    exact .setNode hd hspec (hexec.id.trans (h.node spec hspec).id) (hexec.timer hplanned)

/-- The loop of `reconcile` fires no timer. -/
theorem reconcileLoop_timers {actions : Nat}
    (hok : Loop.eval (reconcileBody_terminating rt d parent) (actions, p) = (.ok (), p')) :
    TimersKeep d p.state p'.state := by
  have hpost := Loop.eval_spec (reconcileBody_terminating rt d parent) (s := (actions, p))
    (fun s => StateInv d parent s.2.state ∧ TimersKeep d p.state s.2.state)
    (fun r => r.1 = .ok () → TimersKeep d p.state r.2.state)
  rw [hok] at hpost
  refine hpost (fun s s' hs hbody => ?_) (fun s r hs hbody hr => ?_) ⟨h, .refl⟩ rfl
  · unfold reconcileBody at hbody
    split at hbody
    · split at hbody
      · cases hbody
      · cases hbody
      · rename_i hplan
        have hplanOk := planWorkflowForParent_ok hd hplan
        have hcommands := executeCommands_ok rt hd hs.1 s.1 hplanOk
        split at hbody
        · cases hbody
        · rename_i hexec
          obtain rfl := Sum.inl.inj hbody
          rw [hexec] at hcommands
          exact ⟨((hcommands.reaches _ rfl).evolves hd hs.1).1,
            hs.2.trans (executeCommands_timers hd hs.1 hplanOk hexec)⟩
    · cases hbody
  · -- an iteration that ends the loop without an error leaves the pass
    unfold reconcileBody at hbody
    split at hbody
    · split at hbody
      · obtain rfl := Sum.inr.inj hbody
        cases hr
      · obtain rfl := Sum.inr.inj hbody
        exact hs.2
      · split at hbody
        · obtain rfl := Sum.inr.inj hbody
          cases hr
        · cases hbody
    · obtain rfl := Sum.inr.inj hbody
      exact hs.2

end

/-- **A pass fires timers that are due at its wake time.** -/
theorem reconcileTransition_timers {current : Snapshot}
    (hoperation : current.operation = d.operation) (hregistry : rt.registry.Identifies d)
    (h : StateInv d current.callID state) (orders : MapOrders) (wake : Time) (world : σ)
    {t : Transition} (hok : (reconcileTransition rt orders current state wake world).1 = .ok t) :
    ∃ next, t.workflow = some next ∧ TimersFire d wake state next := by
  unfold reconcileTransition at hok
  rw [hoperation, h.version] at hok
  dsimp only at hok
  split at hok
  · cases hok
  rename_i d' hresolve
  split at hok
  · cases hok
  rename_i hfingerprint
  rw [h.fingerprint, bne_iff_ne, not_not] at hfingerprint
  obtain rfl := hregistry d' hresolve hfingerprint
  split at hok
  · cases hok
    exact ⟨_, (moveWorkflow_fields ..).1, fun spec hspec hkind hs =>
      .inl (skipNonTerminalWorkflowNodes_timers h spec hspec hkind hs)⟩
  -- children are observed, timers fire, and the plans are executed
  have hrefresh := refresh_ok rt (p := ⟨world, state, [], []⟩) hd h orders wake
  split at hok
  · cases hok
  rename_i fired hfired
  rw [hfired] at hrefresh
  have hinv := ((hrefresh.reaches () rfl).evolves hd h).1
  have hfires : TimersFire d' wake state fired.state := by
    have hchildren := refreshWaitingChildren_ok rt (p := ⟨world, state, [], []⟩) hd h
      orders.children
    unfold refresh at hfired
    split at hfired
    · cases hfired
    rename_i observed hobserved
    obtain ⟨-, rfl⟩ := Prod.mk.inj hfired
    rw [hobserved] at hchildren
    obtain ⟨hinvObserved, hev⟩ := (hchildren.reaches () rfl).evolves hd h
    intro spec hspec hkind hs
    rcases fireTimers_timers hinvObserved wake spec hspec hkind hs with hs | hdue
    · exact .inl (refreshWaitingChildren_timers hd h hobserved spec hspec hkind hs)
    · rw [hev.startedAt] at hdue
      exact .inr hdue
  have hloop := reconcileLoop_ok rt hd hinv 0
  split at hok
  · cases hok
  rename_i last hlast
  rw [hlast] at hloop
  have hlastInv := ((hloop.reaches () rfl).evolves hd hinv).1
  have hkeep := reconcileLoop_timers hd hinv hlast
  cases hok
  unfold conclude
  split
  · exact ⟨_, (moveWorkflow_fields ..).1, fun spec hspec hkind hs => hfires spec hspec hkind
      (hkeep.trans (skipNonTerminalWorkflowNodes_timers hlastInv) spec hspec hkind hs)⟩
  · exact ⟨_, (moveWorkflow_fields ..).1, fun spec hspec hkind hs => hfires spec hspec hkind
      (hkeep spec hspec hkind hs)⟩

/-- Only a pass at or after its deadline makes a timer of the definition succeed. -/
def TimersDue (d : WorkflowDefinition) (startedAt : Time)
    (e : Event Snapshot (ParentInput σ) ParentOutput) : Prop :=
  ∀ spec ∈ d.nodes, spec.kind = .timer → ∀ old new, e.pre.workflow = some old →
    e.post.workflow = some new →
    (old.node spec.id).status ≠ .succeeded → (new.node spec.id).status = .succeeded →
      ∃ pass, e.input = .pass pass ∧ startedAt + spec.delay ≤ pass.wake

theorem timersDue_event (h : ParentInv d s state) {i : ParentInput σ}
    (hmay : ParentMay d s i) (hstarted : startedAt ≤ state.startedAt) :
    TimersDue d startedAt ((parentMachine σ d).event s i) := by
  intro spec hspec hkind old new hold hnew hbefore hafter
  obtain rfl : state = old := Option.mem_unique h.workflow hold
  have hchanged : ((parentMachine σ d).event s i).post.workflow ≠ s.workflow := by
    rw [hnew, h.workflow]
    rintro hsame
    cases hsame
    exact hbefore hafter
  obtain ⟨heffect, -⟩ := parentExec_effect hd h hmay
  change (parentExec s i).2.workflow = some new at hnew
  change (parentExec s i).2.workflow ≠ s.workflow at hchanged
  cases i with
  | move t =>
    refine absurd ?_ hchanged
    generalize (parentExec s _).2 = next at heffect ⊢
    cases heffect with
    | stay => rfl
    | move workflow accepted => simp [advanced, workflow]
  | prune floor =>
    refine absurd ?_ hchanged
    generalize (parentExec s _).2 = next at heffect ⊢
    cases heffect with
    | stay => rfl
    | prune pruned =>
      obtain ⟨-, -, floor', n, rfl⟩ := pruneSnapshot_ok pruned
      rfl
  | pass input =>
    refine ⟨input, rfl, ?_⟩
    have hfires := fun t => reconcileTransition_timers (t := t) hd h.operation hmay.2.1
      h.nodes input.orders
      input.wake input.world
    simp only [parentExec, h.workflow, reconcile] at hnew hchanged
    generalize reconcileTransition input.runtime input.orders s state input.wake input.world = built
      at hfires hnew hchanged
    obtain ⟨result, p⟩ := built
    cases result with
    | error err => simp [settle, h.workflow] at hchanged
    | ok t =>
      obtain ⟨next, hnext, hfire⟩ := hfires t rfl
      cases hcommitted : input.committed with
      | false => simp [hcommitted, h.workflow] at hchanged
      | true =>
        simp only [hcommitted, if_true] at hnew hchanged
        rcases settle_apply s t with hs | ⟨hs, -⟩
        · simp [hs, h.workflow] at hchanged
        · simp only [hs, advanced, hnext, Option.some_or, Option.some.injEq] at hnew
          subst hnew
          have hdue := (hfire spec hspec hkind hafter).resolve_left hbefore
          calc startedAt + spec.delay ≤ state.startedAt + spec.delay :=
            Int.add_le_add_right hstarted _
            _ ≤ deadline state.startedAt spec := le_normalizeReadyAt _
            _ ≤ input.wake := hdue

/-- In a run of a parent that started at `startedAt`, every timer is due. -/
theorem timersDue_of_run {history : List (Event Snapshot (ParentInput σ) ParentOutput)}
    (hrun : (parentMachine σ d).Run history s) {callID : CallID} {input : List UInt8}
    (hnew : newWorkflowSnapshot callID d input startedAt = .ok (Machine.initialState history s)) :
    ∀ e ∈ history, TimersDue d startedAt e := by
  suffices hinv : (∃ state, ParentInv d s state ∧ state.startedAt = normalizeReadyAt startedAt) ∧
      ∀ e ∈ history, TimersDue d startedAt e from hinv.2
  revert hnew
  refine hrun.invariant (I := fun history s =>
    newWorkflowSnapshot callID d input startedAt = .ok (Machine.initialState history s) →
      (∃ state, ParentInv d s state ∧ state.startedAt = normalizeReadyAt startedAt) ∧
        ∀ e ∈ history, TimersDue d startedAt e) ?_ ?_
  · intro s _ hnew
    exact ⟨⟨_, newWorkflowSnapshot_inv hd hnew, rfl⟩, by simp⟩
  · intro history s i ih hmay hnew
    rw [Machine.initialState_snoc] at hnew
    obtain ⟨⟨state, hinv, hstarted⟩, htimers⟩ := ih hnew
    obtain ⟨heffect, -⟩ := parentExec_effect hd hinv hmay
    obtain ⟨-, next, hnext, hev⟩ := heffect.inv hd hinv
    exact ⟨⟨next, hnext, hev.startedAt.trans hstarted⟩, forall_mem_snoc.mpr ⟨htimers,
      timersDue_event hd hinv hmay (hstarted ▸ le_normalizeReadyAt startedAt)⟩⟩

end

end

/-! ## Never early -/

/-- **Durable timers never fire early.** Rounding moves no deadline back. In any run of the store,
no call is claimed, acquired or listed while it is suspended until a later instant. In any run of a
workflow parent, a timer succeeds only in a pass whose wake time is at or after the start of the
workflow plus the delay of the timer. -/
theorem timers_never_early {σ : Type} {storeHistory : List Memory.StoreEvent} {store : Memory.Store}
    (hstore : Memory.machine.Run storeHistory store) {spec : WorkflowDefinitionSpec}
    {d : WorkflowDefinition} (hd : newWorkflowDefinition spec = .ok d)
    {history : List (Event Snapshot (ParentInput σ) ParentOutput)}
    {s : Snapshot} (hrun : (parentMachine σ d).Run history s) {callID : CallID} {input : List UInt8}
    {startedAt : Time}
    (hnew : newWorkflowSnapshot callID d input startedAt = .ok (Machine.initialState history s)) :
    (∀ value, value ≤ normalizeReadyAt value) ∧ (∀ e ∈ storeHistory, Memory.OnTime e) ∧
      ∀ e ∈ history, TimersDue d startedAt e :=
  ⟨le_normalizeReadyAt, Memory.onTime_of_run hstore,
    timersDue_of_run (newWorkflowDefinition_ok hd) hrun hnew⟩

/-! A call that is suspended until 50 µs is claimed at 20 µs and at 50 µs; the timer of a parent
fires in its second pass. -/

namespace SuspendedCall

open Memory

/-- The calls of the store. -/
def calls : List Memory.Input :=
  [⟨1000, .create .background sampleCall⟩,
   ⟨1000, .claim .background ⟨"c", 1, "o", 10⟩⟩,
   ⟨1005, .transition .background ⟨2, 1, "o", Time.zero,
     { sampleCall with status := .suspended, readyAt := 50000, revision := 3, fence := 1 }⟩⟩,
   ⟨20000, .claim .background ⟨"c", 3, "p", 10⟩⟩,
   ⟨50000, .claim .background ⟨"c", 3, "p", 10⟩⟩]

theorem calls_run : Memory.machine.Run (Memory.machine.trace newStore calls)
    (Memory.machine.final newStore calls) := by
  have hallows : Memory.machine.Allows [] newStore calls := by
    simp [Machine.Allows, Memory.machine, calls]
  exact (Machine.Run.init (M := Memory.machine) ⟨[], rfl⟩).extend hallows

/-- The parent claimed again after its first pass. -/
def again : Snapshot := (parentExec TwoTimers.waiting
    (.move (move .running 2 []) : ParentInput Unit)).2

/-- The pass at the deadline. -/
def dueInput : PassInput Unit := { TwoTimers.passInput with wake := second + hour }

/-- The parent after it. -/
def fired : Snapshot := (parentExec again (.pass dueInput)).2

theorem evaluated : again.status = .running ∧
    fired.workflow.map (fun state => ((state.node "t").status, (state.node "u").status)) =
        some (.succeeded, .waiting) ∧
    (Memory.machine.trace newStore (calls.take 4)).map (fun e =>
      e.post.records.lookup "c" |>.map Snapshot.status) =
      [some .accepted, some .running, some .suspended, some .suspended] ∧
    ((Memory.machine.final newStore calls).records.lookup "c").map Snapshot.status =
      some .running := by
  decide +kernel

theorem fired_run : ∃ history, (parentMachine Unit TwoTimers.definition).Run history fired ∧
    Machine.initialState history fired = TwoTimers.created second := by
  have hsecond : second ∈ [second, TwoTimers.early] := List.mem_cons_self
  obtain ⟨hnew, hclaim, -⟩ := TwoTimers.evaluated.2.2.1 second hsecond
  have hcreated : (parentMachine Unit TwoTimers.definition).Run [] (TwoTimers.created second) :=
    .init ⟨"parent", [], second, hnew⟩
  have hclaimed := hcreated.step (ParentInput.move (move .running 1 [])) rfl
  rw [show ((parentMachine Unit TwoTimers.definition).exec _ _).2 =
    _ from parentExec_move Unit hclaim] at hclaimed
  have hwaiting := hclaimed.step (ParentInput.pass TwoTimers.passInput)
    (TwoTimers.passInput_may hclaimed)
  have hagain := hwaiting.step (ParentInput.move (move .running 2 [])) rfl
  have hfired := hagain.step (ParentInput.pass dueInput)
    (pass_may (newWorkflowDefinition_ok TwoTimers.definition_eq)
    hagain (.inl evaluated.1) (fun d' hresolve _ =>
      Option.some.inj (hresolve.symm.trans TwoTimers.evaluated.2.1)) rfl
    rfl)
  exact ⟨_, hfired, rfl⟩

/-- The early claim is refused and the timer fires at its deadline. -/
theorem suspended_on_time :
    (Memory.machine.trace newStore (calls.take 4)).map (fun e =>
      e.post.records.lookup "c" |>.map Snapshot.status) =
      [some .accepted, some .running, some .suspended, some .suspended] ∧
    ((Memory.machine.final newStore calls).records.lookup "c").map Snapshot.status = some .running ∧
    (∀ e ∈ Memory.machine.trace newStore calls, Memory.OnTime e) ∧
    ∃ history, (parentMachine Unit TwoTimers.definition).Run history fired ∧
      fired.workflow.map (fun state => ((state.node "t").status, (state.node "u").status)) =
        some (.succeeded, .waiting) ∧
      ∀ e ∈ history, TimersDue TwoTimers.definition second e := by
  obtain ⟨history, hrun, hinitial⟩ := fired_run
  obtain ⟨hnew, -⟩ := TwoTimers.evaluated.2.2.1 second List.mem_cons_self
  obtain ⟨-, hstore, hdue⟩ := timers_never_early calls_run TwoTimers.definition_eq hrun
    (hnew.trans (congrArg Except.ok hinitial.symm))
  exact ⟨evaluated.2.2.1, evaluated.2.2.2, hstore, history, hrun, evaluated.2.1, hdue⟩

end SuspendedCall

end Keelith.Continuation

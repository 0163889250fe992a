import Keelith.Saga.Attempts

/-!
# Actions that escape compensation

A compensated instance should have undone every action that was done. The engine compensates the
steps below `NextStep`, so it misses an action that was done without being counted:

- the handler returned nil after the context of its step had expired, and `invoke` made an error of
  that;
- its success was not saved, and a later attempt failed;
- the owner was replaced, and its handler returned after the compensation.

`compensated_undone`: it misses no other. `LateReturn.escapes`: the first one.
-/

namespace Keelith.Saga

/-- The step whose action ends here, with a handler that returned nil. -/
def returnedNil (e : SagaEvent) : Option Nat :=
  match e.output with
  | .handled .action index (.returned none) _ => some index
  | _ => none

/-- An attempt of an action ends: its step, what the handler did, and the causes of the contexts. -/
structure ActionEnd where
  index : Nat
  result : HandlerResult
  expired : Option String
  cause : Option String

/-- The attempt of an action that ends with a step. -/
def actionEnd (s : SagaState) : SagaOp → Option ActionEnd
  | .step fence (.handled result expired cause _) =>
    match (s.owners fence).map Owner.control with
    | some (.handling record .action) => some ⟨record.nextStep, result, expired, cause⟩
    | _ => none
  | _ => none

/-- The engine counts the attempt as failed: the handler or its time has failed, and the run goes
on. -/
def ActionEnd.Failed (a : ActionEnd) : Prop :=
  a.cause = none ∧ invokeError a.result a.expired ≠ none

instance (a : ActionEnd) : Decidable a.Failed := inferInstanceAs (Decidable (_ ∧ _))

/-- The actions are steady: none of them has both an attempt that returned nil and one that is
counted as failed, and they return nil while the stored record is running. -/
def Steady (id : String) (history : List SagaEvent) (s : SagaState) (op : SagaOp) : Prop :=
  ∀ a ∈ actionEnd s op,
    (a.result = .returned none →
      (s.repository.records.lookup id).map Record.status = some .running ∧ ¬ a.Failed ∧
        ∀ e ∈ history, failedAction e ≠ some a.index) ∧
    (a.Failed → ∀ e ∈ history, returnedNil e ≠ some a.index)

variable {engine : Engine} {id : String} {history : List SagaEvent} {s : SagaState}

/-! ## The end of a handler -/

variable {err : Option String} {phase : Phase} {result : HandlerResult} {after : AfterSave}
  {base record : Record} {e : SagaEvent}

/-- A handler ends in the step of an owner that waits for it. -/
theorem exec_handled {op : SagaOp} {index : Nat}
    (h : (s.exec engine id op).1 = .handled phase index result err) :
    ∃ fence owner record expired cause reason, s.owners fence = some owner ∧
      owner.control = .handling record phase ∧ op =
        .step fence (.handled result expired cause reason) ∧
      index = record.stepIndex phase ∧ err = invokeError result expired ∧
      (s.exec engine id op).2.repository = s.repository ∧
      (phase = .action → actionEnd s op = some ⟨index, result, expired, cause⟩) := by
  have hmoves := @exec_moves engine id s op
  generalize s.exec engine id op = out at hmoves h ⊢
  cases hmoves with
  | idle hreply =>
    rcases hreply with rfl | rfl <;> cases h
  | @steps fence owner howner op =>
    unfold Owner.exec at h ⊢
    split at h
    next => split at h <;> cases h
    next => cases h
    next => cases h
    next => cases h
    next => cases h
    next record phase result expired cause reason hcontrol =>
      cases h
      refine ⟨fence, owner, record, expired, cause, reason, howner, hcontrol, rfl, rfl,
        rfl, rfl, ?_⟩
      rintro rfl
      simp only [actionEnd, howner, Option.map_some, hcontrol]
      rfl
    next => cases h

/-- An owner waits for a handler that it has just called, or that it waited for before. -/
theorem exec_waits {fence : UInt64} {owner : Owner} {r : Repository} {op : OwnerOp}
    (h : (owner.exec engine id fence r op).2.2.control = .handling record phase) :
    owner.control = .handling record phase ∨
      (owner.exec engine id fence r op).1 = .invoked (engine.invocation record phase fence) := by
  unfold Owner.exec at h ⊢
  split at h
  next =>
    split at h
    · cases h
    · exact absurd (Control.attempt_of_handling h) (by simp)
  next => exact absurd (Control.attempt_of_handling h) (by simp)
  next => exact absurd (Control.attempt_of_handling h) (by simp)
  next record' after now failure hcontrol =>
    dsimp only at h
    unfold Owner.saved at h
    split at h <;> cases h
  next record' phase' hcontrol =>
    cases h
    exact .inr rfl
  next => exact absurd (Control.attempt_of_handling h) (by simp)
  next => exact .inl h

/-- The handlers that owners wait for were called. -/
def Called (engine : Engine) (history : List SagaEvent) (s : SagaState) : Prop :=
  ∀ fence owner record phase, s.owners fence = some owner → owner.control = .handling record phase →
    ∃ e ∈ history, e.output = .invoked (engine.invocation record phase fence)

theorem Called.step (h : Called engine history s) (op : SagaOp) :
    Called engine (history ++ [⟨s, op, (s.exec engine id op).1, (s.exec engine id op).2⟩])
      (s.exec engine id op).2 := by
  intro fence owner record phase howner hcontrol
  have hold {owner : Owner} {e : SagaEvent} (howner : s.owners fence = some owner)
      (hcontrol : owner.control = .handling record phase) :
      ∃ d ∈ history ++ [e], d.output = .invoked (engine.invocation record phase fence) := by
    obtain ⟨d, hd, hinvoked⟩ := h fence owner record phase howner hcontrol
    exact ⟨d, List.mem_append_left _ hd, hinvoked⟩
  have hmoves := @exec_moves engine id s op
  generalize s.exec engine id op = out at hmoves howner ⊢
  cases hmoves with
  | idle hreply hrepository howners =>
    rcases howners fence owner howner with howner | rfl
    · exact hold howner hcontrol
    · cases hcontrol
  | @steps fence' owner' howner' op =>
    dsimp only at howner
    by_cases heq : fence = fence'
    · subst heq
      rw [Function.update_self] at howner
      rw [← Option.some.inj howner] at hcontrol
      rcases exec_waits hcontrol with hwaited | hinvoked
      · exact hold howner' hwaited
      · exact ⟨_, List.mem_append_right _ (List.mem_singleton_self _), hinvoked⟩
    · rw [Function.update_of_ne heq] at howner
      exact hold howner hcontrol

/-! ## What is missed -/

/-- What the stored record says about the actions that returned nil. -/
structure EscapeInv (engine : Engine) (id : String) (history : List SagaEvent)
    (s : SagaState) : Prop extends TrackInv id history s where
  called : Called engine history s
  /-- No action has both. -/
  steady : ∀ d ∈ history, ∀ e ∈ history, ∀ index, returnedNil d = some index →
    failedAction e ≠ some index
  below : ∀ e ∈ history, ∀ index, returnedNil e = some index →
    ∃ stored, s.repository.records.lookup id = some stored ∧ index ≤ stored.nextStep ∧
      (stored.status.reversed = true → index < stored.nextStep)
  ended : ∀ stored, s.repository.records.lookup id = some stored → stored.status = .compensated →
    stored.compensationIndex < 0

/-- The forward execution ends with a failed action. -/
theorem Advances.reversed (h : Advances history base record after)
    (hreversed : record.status.reversed = true) :
    base.status.reversed = true ∨ ∃ e ∈ history, failedAction e = some base.nextStep := by
  cases h with
  | fails hstatus he hfailed => exact .inr ⟨_, he, hfailed⟩
  | completes => cases hreversed
  | attempts hstatus | succeeds hstatus =>
    rw [hstatus] at hreversed
    cases hreversed
  | ends hstatus | skips hstatus | retries hstatus | undoes hstatus | remains hstatus =>
    rw [hstatus]
    exact .inl rfl

theorem Advances.ended (h : Advances history base record after)
    (hstatus : record.status = .compensated) : record.compensationIndex < 0 := by
  cases h with
  | ends _ hindex => exact hindex
  | completes | fails => cases hstatus
  | remains _ hnew =>
    rcases hnew with rfl | rfl <;> cases hstatus
  | attempts hbase | succeeds hbase | skips hbase | retries hbase | undoes hbase =>
    rw [hbase] at hstatus
    cases hstatus

variable {op : SagaOp} {index : Nat}

/-- The event of a step. -/
abbrev eventOf (engine : Engine) (id : String) (s : SagaState) (op : SagaOp) : SagaEvent :=
  (sagaMachine engine id).event s op

theorem handled_of_returnedNil (h : returnedNil e = some index) :
    ∃ err, e.output = .handled .action index (.returned none) err := by
  unfold returnedNil at h
  split at h
  next i err houtput =>
    cases h
    exact ⟨err, houtput⟩
  next => cases h

theorem handled_of_failedAction (h : failedAction e = some index) :
    ∃ fence result expired reason err, e.input = .step fence (.handled result expired none reason) ∧
      ∃ result', e.output = .handled .action index result' (some err) := by
  unfold failedAction at h
  split at h
  next fence result expired reason i result' err hinput houtput =>
    cases h
    exact ⟨fence, result, expired, reason, err, hinput, result', houtput⟩
  next => cases h

/-- A handler returns nil: the stored record is running and not behind, and no attempt has
failed. -/
theorem EscapeInv.nil (h : EscapeInv engine id history s) (hsteady : Steady id history s op)
    (hnil : returnedNil (eventOf engine id s op) = some index) :
    (∃ stored, s.repository.records.lookup id = some stored ∧ stored.status = .running ∧
      index ≤ stored.nextStep) ∧
    (s.exec engine id op).2.repository = s.repository ∧
    ∀ e ∈ history ++ [eventOf engine id s op], failedAction e ≠ some index := by
  obtain ⟨err, houtput⟩ := handled_of_returnedNil hnil
  obtain ⟨fence, owner, record, expired, cause, reason, howner, hcontrol, hop, hindex, herr,
    hsame, hend⟩ :=
    exec_handled houtput
  obtain ⟨hstatus, hnot, hold⟩ := (hsteady _ (hend rfl)).1 rfl
  have htracks := h.owner fence owner howner
  rw [hcontrol] at htracks
  obtain ⟨-, -, ⟨stored, hstored, hseen⟩, -⟩ := htracks
  rw [hstored] at hstatus
  refine ⟨⟨stored, hstored, Option.some.inj hstatus, hindex.trans_le hseen.nextStep⟩, hsame,
    forall_mem_snoc.mpr ⟨hold, fun hfailed => ?_⟩⟩
  obtain ⟨fence', result', expired', reason', err', hinput, result'', houtput'⟩ :=
    handled_of_failedAction hfailed
  rw [hop] at hinput
  cases hinput
  rw [houtput] at houtput'
  cases houtput'
  exact hnot ⟨rfl, by rw [← herr]; simp⟩

/-- An attempt is counted as failed: none has returned nil. -/
theorem Steady.failed (hsteady : Steady id history s op)
    (hfailed : failedAction (eventOf engine id s op) = some index) :
    ∀ e ∈ history, returnedNil e ≠ some index := by
  obtain ⟨fence', result', expired', reason', err', hinput, result, houtput⟩ :=
    handled_of_failedAction hfailed
  obtain ⟨fence, owner, record, expired, cause, reason, howner, hcontrol, hop, hindex, herr,
    hsame, hend⟩ :=
    exec_handled houtput
  rw [hop] at hinput
  cases hinput
  exact (hsteady _ (hend rfl)).2 ⟨rfl, by rw [← herr]; simp⟩

theorem EscapeInv.step (h : EscapeInv engine id history s) (hsteady : Steady id history s op) :
    EscapeInv engine id (history ++ [eventOf engine id s op]) (s.exec engine id op).2 := by
  obtain ⟨⟨writer, hstores⟩, htrack⟩ := h.toTrackInv.step engine op
  refine { htrack with called := h.called.step op, steady := ?_, below := ?_, ended := ?_ }
  · refine forall_mem_snoc.mpr ⟨fun d hd => forall_mem_snoc.mpr ⟨h.steady d hd, ?_⟩, ?_⟩
    · exact fun index hnil hfailed => hsteady.failed hfailed d hd hnil
    · exact fun e he index hnil hfailed => (h.nil hsteady hnil).2.2 e he hfailed
  · refine forall_mem_snoc.mpr ⟨fun e he index hnil => ?_, fun index hnil => ?_⟩
    · obtain ⟨stored, hstored, hle, hlt⟩ := h.below e he index hnil
      generalize (s.exec engine id op).2.repository = r' at hstores
      cases hstores with
      | same => exact ⟨stored, hstored, hle, hlt⟩
      | created _ hnone =>
        rw [hnone] at hstored
        cases hstored
      | @saved current record after revision now hid hcurrent hadvances =>
        obtain rfl : current = stored := Option.mem_unique hcurrent hstored
        refine ⟨_, Repository.lookup_put hid, hle.trans hadvances.nextStep_le, fun hreversed => ?_⟩
        refine lt_of_lt_of_le ?_ hadvances.nextStep_le
        rcases hadvances.reversed hreversed with hbefore | ⟨d, hd, hfailed⟩
        · exact hlt hbefore
        · -- the action that failed is not the one that returned nil
          exact lt_of_le_of_ne hle fun heq => h.steady e he d hd index hnil (heq ▸ hfailed)
    · obtain ⟨⟨stored, hstored, hrunning, hle⟩, hsame, -⟩ := h.nil hsteady hnil
      refine ⟨stored, by rwa [hsame], hle, fun hreversed => ?_⟩
      rw [hrunning] at hreversed
      cases hreversed
  · intro stored hstored hstatus
    generalize (s.exec engine id op).2.repository = r' at hstores hstored
    cases hstores with
    | same => exact h.ended stored hstored hstatus
    | created hid hnone hrunning =>
      rw [Repository.lookup_put hid] at hstored
      cases hstored
      rw [hrunning] at hstatus
      cases hstatus
    | @saved current record after revision now hid hcurrent hadvances =>
      rw [Repository.lookup_put (by exact hid)] at hstored
      cases hstored
      exact hadvances.ended hstatus

theorem escapeInv_of_run (h : ((sagaMachine engine id).assuming (Steady id)).Run history s) :
    EscapeInv engine id history s := by
  refine Machine.Run.invariant (M := (sagaMachine engine id).assuming (Steady id))
    (I := EscapeInv engine id) ?_ (fun history s op hinv hmay => hinv.step hmay.2) h
  rintro s rfl
  refine ⟨⟨fun record hrecord => ?_, fun _ _ howner => (by cases howner)⟩,
    fun _ _ _ _ howner => (by cases howner), fun d hd => (List.not_mem_nil hd).elim,
    fun e he => (List.not_mem_nil he).elim, fun record hrecord => ?_⟩ <;>
  simp [Repository.new] at hrecord

/-- The compensation of a step is called and returns nil. -/
def Undone (events : List SagaEvent) (index : Nat) : Prop :=
  ∃ before c between d after invocation, events = before ++ c :: (between ++ d :: after) ∧
    c.output = .invoked invocation ∧ invocation.phase = .compensation ∧
      invocation.stepIndex = index ∧
    (∃ op, d.input = .step invocation.fence op) ∧
    d.output = .handled .compensation index (.returned none) none

/-- A compensation that is done was called before. -/
theorem EscapeInv.undone (hrun : ((sagaMachine engine id).assuming (Steady id)).Run history s)
    (h : Done history .compensation index) : Undone history index := by
  obtain ⟨d, hd, result, houtput⟩ := h
  obtain ⟨first, last, hsplit⟩ := List.append_of_mem hd
  obtain ⟨hbefore, -, hevent⟩ := hrun.split hsplit
  have hexec : (d.pre.exec engine id d.input).1 = .handled .compensation index result none := by
    rw [← houtput, hevent]
    rfl
  obtain ⟨fence, owner, record, expired, cause, reason, howner, hcontrol, hop, hindex, herr, -⟩ :=
    exec_handled hexec
  obtain ⟨c, hc, hinvoked⟩ := (escapeInv_of_run hbefore).called fence owner record _ howner hcontrol
  obtain ⟨start, between, hfirst⟩ := List.append_of_mem hc
  refine ⟨start, c, between, d, last,
    _, by rw [hsplit, hfirst]; simp, hinvoked, rfl, hindex.symm, ⟨_, hop⟩, ?_⟩
  -- `invoke` returns nil only if the handler does
  have hresult : result = .returned none := by
    cases result with
    | panicked => cases herr
    | returned err =>
      cases err with
      | none => rfl
      | some err => cases herr
  rw [houtput, hresult]

/-- **Completed actions are compensated**, in every run with steady actions: if the instance is
compensated, then every action that returned nil was followed by its compensation, which returned
nil. -/
theorem compensated_undone (h : ((sagaMachine engine id).assuming (Steady id)).Run history s)
    {record : Record} (hrecord : s.repository.records.lookup id = some record)
    (hstatus : record.status = .compensated) {before after : List SagaEvent} {e : SagaEvent}
    (hsplit : history = before ++ e :: after) (hnil : returnedNil e = some index)
    (hcompensates : engine.definition.compensates index = true) : Undone after index := by
  have hinv := escapeInv_of_run h
  have hreversed : record.status.reversed = true := by rw [hstatus]; rfl
  obtain ⟨stored, hstored, -, hlt⟩ := hinv.below e (by rw [hsplit]; simp) index hnil
  obtain rfl : record = stored := Option.mem_unique hrecord hstored
  have hended := hinv.ended record hrecord hstatus
  have hdone := ((sagaInv_of_run h.of_assuming).stored record hrecord).compensations hreversed index
    (by omega) (hlt hreversed) hcompensates
  obtain ⟨first, c, between, d, last, invocation, hevents, hinvoked, hphase, hindex,
    hinput, houtput⟩ :=
    EscapeInv.undone h hdone
  -- the compensation was not called before the action returned: the record would not be running
  obtain ⟨hrun, ⟨-, hsteady⟩, hevent⟩ := h.split hsplit
  have hnot : c ∉ before := by
    intro hc
    obtain ⟨stored, hstored, hne, -⟩ :=
      (sagaInv_of_run hrun.of_assuming).undone c hc invocation hinvoked hphase
    have hnil' : returnedNil (eventOf engine id e.pre e.input) = some index := hevent ▸ hnil
    obtain ⟨⟨stored', hstored', hrunning, -⟩, -⟩ := (escapeInv_of_run hrun).nil hsteady hnil'
    rw [hstored] at hstored'
    cases hstored'
    exact hne hrunning
  have hne : e ≠ c := by
    rintro rfl
    obtain ⟨err, houtput⟩ := handled_of_returnedNil hnil
    rw [hinvoked] at houtput
    cases houtput
  rw [hsplit] at hevents
  rcases List.append_eq_append_iff.mp hevents with ⟨rest, hfirst, hrest⟩ | ⟨rest, hfirst, hrest⟩
  · cases rest with
    | nil =>
      cases hrest
      exact absurd rfl hne
    | cons x rest =>
      cases hrest
      exact ⟨rest, c, between, d, last, invocation, rfl, hinvoked, hphase, hindex, hinput, houtput⟩
  · cases rest with
    | nil =>
      cases hrest
      exact absurd rfl hne
    | cons x rest =>
      obtain ⟨rfl, -⟩ := List.cons.inj hrest
      exact absurd (by rw [hfirst]; simp) hnot

/-! ## A handler that returns too late -/

namespace LateReturn

open StaleOwner (attempt outcome orders start)

/-- The context of the first step expires before its handler returns nil. -/
def inputs : List SagaOp :=
  [.acquire 1, .step 1 (.load none), .step 1 (.create 1 none)] ++ attempt 1 ++
  [.step 1 (.handled (.returned none) (some "context deadline exceeded") none "timeout"),
    .step 1 (.save 1 none), .step 1 (.turn none), .step 1 (.save 1 none)]

/-- The first step is done and the second one fails: the first one is compensated. -/
def steady : List SagaOp :=
  [.acquire 1, .step 1 (.load none), .step 1 (.create 1 none)] ++ attempt 1 ++ outcome 1 none ++
  attempt 1 ++ outcome 1 (some "declined") ++ attempt 1 ++ outcome 1 none ++
  [.step 1 (.turn none), .step 1 (.save 1 none)]

def machine : Machine SagaState SagaOp SagaReply := sagaMachine orders "order-1"

def steadyMachine : Machine SagaState SagaOp SagaReply := machine.assuming (Steady "order-1")

instance (history : List SagaEvent) (s : SagaState) (op : SagaOp) :
    Decidable (Steady "order-1" history s op) :=
  inferInstanceAs (Decidable (∀ a ∈ actionEnd s op, _))

instance (history : List SagaEvent) (s : SagaState) (op : SagaOp) :
    Decidable (machine.may history s op) :=
  inferInstanceAs (Decidable (s.May op))

instance (history : List SagaEvent) (s : SagaState) (op : SagaOp) :
    Decidable (steadyMachine.may history s op) :=
  inferInstanceAs (Decidable (s.May op ∧ Steady "order-1" history s op))

/-- The status of the instance. -/
def status (s : SagaState) : Option Status :=
  (s.repository.records.lookup "order-1").map Record.status

/-- The two runs, evaluated. -/
theorem evaluated : (machine.Allows [] start inputs ∧
    status (machine.final start inputs) = some .compensated ∧
      (machine.trace start inputs).any (fun e => returnedNil e = some 0) = true ∧
      StaleOwner.invocations (machine.trace start inputs) = [(.action, 0)]) ∧
    steadyMachine.Allows [] start steady ∧
    status (steadyMachine.final start steady) = some .compensated ∧
    (steadyMachine.trace start steady).any (fun e => returnedNil e = some 0) = true := by
  decide +kernel

/-- **An action escapes**: its handler returns nil and it has a compensation; the instance is
compensated, and no compensation was called. -/
theorem escapes : ∃ history s, (sagaMachine orders "order-1").Run history s ∧
    status s = some .compensated ∧ (∃ e ∈ history, returnedNil e = some 0) ∧
    orders.definition.compensates 0 = true ∧ StaleOwner.invocations history = [(.action, 0)] := by
  obtain ⟨⟨hallows, hstatus, hnil, hcalls⟩, -⟩ := evaluated
  obtain ⟨e, he, hnil⟩ := List.any_eq_true.mp hnil
  exact ⟨_, _, (Machine.Run.init rfl).extend hallows, hstatus, ⟨e, he, by simpa using hnil⟩,
    rfl, hcalls⟩

theorem undone_steady : status (steadyMachine.final start steady) = some .compensated ∧
    ∃ before e after, steadyMachine.trace start steady = before ++ e :: after ∧
      returnedNil e = some 0 ∧ Undone after 0 := by
  obtain ⟨-, hallows, hstatus, hnil⟩ := evaluated
  obtain ⟨e, he, hnil⟩ := List.any_eq_true.mp hnil
  obtain ⟨before, after, hsplit⟩ := List.append_of_mem he
  obtain ⟨record, hrecord, hcompensated⟩ := Option.map_eq_some_iff.mp hstatus
  have hrun : steadyMachine.Run _ _ := (Machine.Run.init rfl).extend hallows
  have hnil : returnedNil e = some 0 := by simpa using hnil
  exact ⟨hstatus, before, e, after, hsplit, hnil,
    compensated_undone hrun hrecord hcompensated hsplit hnil rfl⟩

end LateReturn

end Keelith.Saga

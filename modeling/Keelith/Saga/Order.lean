import Keelith.Saga.OwnerLemmas

/-!
# The order of handlers

In which order the owners of an instance call its handlers, over all interleavings.

`handler_order`: an invocation finds the record that its owner saved, and the handlers come in their
order, unless a newer owner has saved since. The engine does not ask for its lease between a `Save`
and the call of the handler: the fence is in the `Invocation`, for the handler to refuse an older
one.
-/

namespace Keelith.Saga

/-! ## The invariant of a run -/

/-- The invariant of the owners and their repository. -/
structure SagaInv (engine : Engine) (id : String) (history : List SagaEvent) (s : SagaState) :
    Prop where
  stored : ∀ record, s.repository.records.lookup id = some record →
    Justified engine id history record
  owner : ∀ fence owner, s.owners fence = some owner →
    OwnerInv engine id history s.repository fence owner.control
  /-- After a compensation was called, the stored record is not running, at its index or below. -/
  undone : ∀ e ∈ history, ∀ invocation, e.output = .invoked invocation →
    invocation.phase = .compensation → ∃ record, s.repository.records.lookup id = some record ∧
      record.status ≠ .running ∧ record.compensationIndex ≤ invocation.stepIndex

variable {engine : Engine} {id : String} {history : List SagaEvent} {s : SagaState}
  {invocation : Invocation}

variable {op : SagaOp}

/-- A handler is called by an owner that is about to call it. -/
theorem exec_invoked (h : (s.exec engine id op).1 = .invoked invocation) :
    ∃ fence owner record phase, s.owners fence = some owner ∧
      owner.control = .invoking record phase ∧
      invocation = engine.invocation record phase fence := by
  have hmoves := @exec_moves engine id s op
  generalize s.exec engine id op = out at hmoves h
  cases hmoves with
  | idle hreply => rcases hreply with rfl | rfl <;> cases h
  | @steps fence owner howner op =>
    unfold Owner.exec at h
    split at h
    next => split at h <;> cases h
    next => cases h
    next => cases h
    next => cases h
    next record phase hcontrol =>
      exact ⟨fence, owner, record, phase, howner, hcontrol, (SagaReply.invoked.inj h).symm⟩
    next => cases h
    next => cases h

section

variable (h : SagaInv engine id history s)

include h

/-- The owner that calls a compensation has a copy of a record that is not running any more. -/
theorem SagaInv.invoked (hinvoked : (s.exec engine id op).1 = .invoked invocation)
    (hphase : invocation.phase = .compensation) :
    ∃ record, s.repository.records.lookup id = some record ∧ record.status ≠ .running ∧
      record.compensationIndex ≤ invocation.stepIndex := by
  obtain ⟨fence, owner, record, phase, howner, hcontrol, rfl⟩ := exec_invoked hinvoked
  obtain rfl : phase = .compensation := hphase
  have hinv := h.owner fence owner howner
  rw [hcontrol] at hinv
  obtain ⟨-, ⟨hstatus, hnonneg, -⟩, stored, hstored, hcopy, -⟩ := hinv
  obtain ⟨hne, -, hle⟩ := hcopy.later (by rw [hstatus]; decide)
  refine ⟨stored, hstored, hne, ?_⟩
  have hindex : (engine.invocation record .compensation fence).stepIndex =
      record.compensationIndex.toNat := rfl
  rw [hindex, Int.toNat_of_nonneg hnonneg]
  exact hle

/-- The invariant after a step, from what it writes and where its owner is then. -/
theorem SagaInv.of_writes (fence : UInt64) {s' : SagaState}
    (hwrites : Writes engine id history s.repository fence s'.repository)
    (howner : ∀ other owner, s'.owners other = some owner →
      OwnerInv engine id (history ++ [(sagaMachine engine id).event s op]) s'.repository other
        owner.control) :
    SagaInv engine id (history ++ [(sagaMachine engine id).event s op]) s' where
  stored _ hrecord := (hwrites.justified h.stored hrecord).append _
  owner := howner
  undone := forall_mem_snoc.mpr
    ⟨fun e he invocation hinvoked hphase =>
      hwrites.undone (h.undone e he invocation hinvoked hphase),
      fun _ hinvoked hphase => hwrites.undone (h.invoked hinvoked hphase)⟩

theorem SagaInv.step (op : SagaOp) :
    SagaInv engine id (history ++ [(sagaMachine engine id).event s op])
      (s.exec engine id op).2 := by
  have hmoves := @exec_moves engine id s op
  generalize hexec : s.exec engine id op = out at hmoves ⊢
  cases hmoves with
  | @idle _ _ s' _ hrepository howners =>
    refine h.of_writes 0 (hrepository ▸ .same) fun other owner hother => ?_
    rw [hrepository]
    rcases howners other owner hother with howner | rfl
    · exact (h.owner other owner howner).append _
    · trivial
  | @steps fence owner howner op =>
    have hout : ((sagaMachine engine id).event s (.step fence op)).output =
        (owner.exec engine id fence s.repository op).1 := congrArg Prod.fst hexec
    obtain ⟨hwrites, hinv⟩ := exec_inv (h.owner fence owner howner) h.stored op hout
    refine h.of_writes fence hwrites fun other owner' hother => ?_
    dsimp only at hother ⊢
    by_cases heq : other = fence
    · subst heq
      rw [Function.update_self] at hother
      cases hother
      exact hinv
    · rw [Function.update_of_ne heq] at hother
      exact (hwrites.owner heq (h.owner other owner' hother)).append _

/-! ## The order -/

/-- The handlers come in their order, for an invocation after a history. It is current if no owner
with a larger fence has saved since its own owner did. -/
structure Ordered (engine : Engine) (id : String) (before : List SagaEvent) (s : SagaState)
    (invocation : Invocation) : Prop where
  fence_le : invocation.fence ≤ s.repository.fence id
  /-- The actions below have succeeded. -/
  actions : invocation.phase = .action → ∀ index < invocation.stepIndex, Done before .action index
  /-- An action that is current finds the stored record running, at its step. -/
  running : invocation.phase = .action → invocation.fence = s.repository.fence id →
    ∃ record, s.repository.records.lookup id = some record ∧ record.status = .running ∧
      record.nextStep = invocation.stepIndex
  /-- No action that is current comes after a compensation. -/
  forward : invocation.phase = .action → invocation.fence = s.repository.fence id →
    ∀ e ∈ before, ∀ earlier, e.output = .invoked earlier → earlier.phase ≠ .compensation
  /-- A compensation is for a step that was done, and what is above it is compensated. -/
  compensations : invocation.phase = .compensation →
    ∃ record, s.repository.records.lookup id = some record ∧
      invocation.stepIndex < record.nextStep ∧
      ∀ index, invocation.stepIndex < index → index < record.nextStep →
        engine.definition.compensates index = true → Done before .compensation index
  /-- A compensation that is current is not above an earlier one. -/
  backward : invocation.phase = .compensation → invocation.fence = s.repository.fence id →
    ∀ e ∈ before, ∀ earlier, e.output = .invoked earlier → earlier.phase = .compensation →
      invocation.stepIndex ≤ earlier.stepIndex

theorem SagaInv.ordered (hinvoked : (s.exec engine id op).1 = .invoked invocation) :
    Ordered engine id history s invocation := by
  obtain ⟨fence, owner, record, phase, howner, hcontrol, rfl⟩ := exec_invoked hinvoked
  have hinv := h.owner fence owner howner
  rw [hcontrol] at hinv
  obtain ⟨hjustified, hfits, stored, hstored, hcopy, howns⟩ := hinv
  rw [Owns, hjustified.id_eq] at howns
  -- the stored record is the one of the owner, if the invocation is current
  have hcurrent (heq : fence = s.repository.fence id) :
      s.repository.records.lookup id = some record := by
    rw [hstored, howns.2 heq]
  have hundone (heq : fence = s.repository.fence id) : ∀ e ∈ history, ∀ earlier,
      e.output = .invoked earlier → earlier.phase = .compensation →
      record.status ≠ .running ∧ record.compensationIndex ≤ earlier.stepIndex := by
    intro e he earlier hearlier hphase
    obtain ⟨other, hother, hne, hle⟩ := h.undone e he earlier hearlier hphase
    obtain rfl : record = other := Option.some.inj ((hcurrent heq).symm.trans hother)
    exact ⟨hne, hle⟩
  cases phase with
  | action =>
    exact {
      fence_le := howns.1
      actions := fun _ => hjustified.actions
      running := fun _ heq => ⟨record, hcurrent heq, hfits.1, rfl⟩
      forward := fun _ heq e he earlier hearlier hphase =>
        (hundone heq e he earlier hearlier hphase).1 hfits.1
      compensations := fun hfalse => by cases hfalse
      backward := fun hfalse => by cases hfalse }
  | compensation =>
    obtain ⟨hstatus, hnonneg, -⟩ := hfits
    have hindex : ((engine.invocation record .compensation fence).stepIndex : Int) =
        record.compensationIndex := Int.toNat_of_nonneg hnonneg
    have hreversed : record.status.reversed = true := by rw [hstatus]; rfl
    obtain ⟨-, hnext, -⟩ := hcopy.later (by rw [hstatus]; decide)
    have hbelow := hjustified.below hreversed
    exact {
      fence_le := howns.1
      actions := fun hfalse => by cases hfalse
      running := fun hfalse => by cases hfalse
      forward := fun hfalse => by cases hfalse
      compensations := fun _ => by
        refine ⟨stored, hstored, by omega, fun index hlt hlast hcomp => ?_⟩
        exact hjustified.compensations hreversed index (by omega) (hnext ▸ hlast) hcomp
      backward := fun _ heq e he earlier hearlier hphase => by
        have hle := (hundone heq e he earlier hearlier hphase).2
        omega }

end

/-- **The invariant holds in every run.** -/
theorem sagaInv_of_run (h : (sagaMachine engine id).Run history s) :
    SagaInv engine id history s := by
  refine Machine.Run.invariant (I := SagaInv engine id) ?_ (fun history s op hinv _ =>
    hinv.step op) h
  rintro s rfl
  exact ⟨fun record hrecord => (by simp [Repository.new] at hrecord),
    fun fence owner howner => (by cases howner), fun e he => (List.not_mem_nil he).elim⟩

/-- **The order of handlers.** Every invocation is ordered after what came before it, and an
instance is completed only after every action has succeeded. -/
theorem handler_order (h : (sagaMachine engine id).Run history s) :
    (∀ before e after invocation, history = before ++ e :: after → e.output = .invoked invocation →
      Ordered engine id before e.pre invocation) ∧
    ∀ record, s.repository.records.lookup id = some record → record.status = .completed →
      ∀ index < engine.definition.steps.length, Done history .action index := by
  constructor
  · intro before e after invocation hsplit hinvoked
    obtain ⟨hrun, -, he⟩ := h.split hsplit
    rw [he] at hinvoked
    exact (sagaInv_of_run hrun).ordered hinvoked
  · intro record hrecord hcompleted index hindex
    have hjustified := (sagaInv_of_run h).stored record hrecord
    exact hjustified.actions index (by rwa [hjustified.completed hcompleted])

/-! ## An owner that is replaced -/

namespace StaleOwner

/-- Two steps; the first one has a compensation. -/
def definition : Definition := ⟨"order", "v1", [⟨"reserve", true, true⟩, ⟨"charge", true, false⟩]⟩

def orders : Engine := ⟨definition, 20, by decide +kernel, by decide⟩

/-- The steps of a handler's attempt: the turn, its `Save` and the call. -/
def attempt (fence : UInt64) : List SagaOp :=
  [.step fence (.turn none), .step fence (.save 1 none), .step fence .invoke]

/-- A handler returns, and the engine saves that. -/
def outcome (fence : UInt64) (err : Option String) : List SagaOp :=
  [.step fence (.handled (.returned err) none none "internal"), .step fence (.save 1 none)]

/-- The first owner saves its attempt at the second step and loses its lease. The second owner fails
there and compensates the first step; then the first owner calls its handler. -/
def inputs : List SagaOp :=
  [.acquire 1, .step 1 (.load none), .step 1 (.create 1 none)] ++ attempt 1 ++ outcome 1 none ++
  [.step 1 (.turn none), .step 1 (.save 1 none), .leaseEnds, .acquire 2, .step 2 (.load none)] ++
  attempt 2 ++ outcome 2 (some "declined") ++ attempt 2 ++ [.step 1 .invoke]

def start : SagaState := ⟨.new, none, 0, fun _ => none⟩

def machine : Machine SagaState SagaOp SagaReply := sagaMachine orders "order-1"

/-- The handlers that are called, in their order. -/
def invocations (history : List SagaEvent) : List (Phase × Nat) :=
  history.filterMap fun e =>
    match e.output with
    | .invoked invocation => some (invocation.phase, invocation.stepIndex)
    | _ => none

instance (s : SagaState) : (op : SagaOp) → Decidable (s.May op)
  | .acquire fence => inferInstanceAs (Decidable (s.lastFence < fence))
  | .leaseEnds | .step _ _ => inferInstanceAs (Decidable True)

instance (history : List SagaEvent) (s : SagaState) (op : SagaOp) :
    Decidable (machine.may history s op) :=
  inferInstanceAs (Decidable (s.May op))

theorem run_inputs : machine.Run (machine.trace start inputs) (machine.final start inputs) :=
  (Machine.Run.init rfl).extend (by decide +kernel : machine.Allows [] start inputs)

theorem invocations_inputs : invocations (machine.trace start inputs) =
    [(.action, 0), (.action, 1), (.compensation, 0), (.action, 1)] := by
  decide +kernel

/-- An action is called after a compensation, while the stored record is compensating. -/
theorem action_after_compensation : ∃ history s, (sagaMachine orders "order-1").Run history s ∧
    invocations history = [(.action, 0), (.action, 1), (.compensation, 0), (.action, 1)] ∧
    (s.repository.records.lookup "order-1").map Record.status = some .compensating :=
  ⟨_, _, run_inputs, invocations_inputs, by decide +kernel⟩

/-- The invocations of this run are ordered, the last one as one that is not current. -/
theorem handler_order_inputs : invocations (machine.trace start inputs) =
      [(.action, 0), (.action, 1), (.compensation, 0), (.action, 1)] ∧
    ∀ before e after invocation, machine.trace start inputs = before ++ e :: after →
      e.output = .invoked invocation → Ordered orders "order-1" before e.pre invocation :=
  ⟨invocations_inputs, (handler_order run_inputs).1⟩

end StaleOwner

end Keelith.Saga

import Keelith.Saga.Engine

/-!
# The owners of an instance

What the record of an owner says, and what it has to do with the stored one.

- `Justified`: what a record says has happened. Its steps below `NextStep` have succeeded; those
  above `CompensationIndex` are compensated, if they can be. An owner's record and the stored one
  are justified by the history, whoever made it.
- `Later`: the order of the records of an instance, as far as it is never undone.
- `Copy`, `Owns`: the record of an owner is not newer than the stored one, and the same if its
  revision is the stored one. After a `Save` it is the stored one until an owner with a larger fence
  has saved.

`exec_inv`: what a step of an owner writes, and where the owner is then.
-/

namespace Keelith.Saga

/-- A handler has run and `invoke` has returned nil. -/
def Done (history : List SagaEvent) (phase : Phase) (index : Nat) : Prop :=
  ∃ e ∈ history, ∃ result, e.output = .handled phase index result none

/-- The forward execution has failed. -/
def Status.reversed : Status → Bool
  | .compensating | .compensated | .failed => true
  | .running | .completed | .other _ => false

/-- What a record says has happened. -/
structure Justified (engine : Engine) (id : String) (history : List SagaEvent) (record : Record) :
    Prop where
  id_eq : record.id = id
  nextStep_le : record.nextStep ≤ engine.definition.steps.length
  actions : ∀ index < record.nextStep, Done history .action index
  below : record.status.reversed = true → record.compensationIndex < record.nextStep
  compensations : record.status.reversed = true → ∀ index : Nat, record.compensationIndex < index →
    index < record.nextStep → engine.definition.compensates index = true →
      Done history .compensation index
  completed : record.status = .completed → record.nextStep = engine.definition.steps.length

/-- The order of the records of an instance: what is compensated stays so. -/
def Later (first second : Record) : Prop :=
  first.status ≠ .running → second.status ≠ .running ∧ second.nextStep = first.nextStep ∧
    second.compensationIndex ≤ first.compensationIndex

/-- The handler of a phase can be called for the record. -/
def Phase.Fits (engine : Engine) (record : Record) : Phase → Prop
  | .action => record.status = .running ∧ record.nextStep < engine.definition.steps.length
  | .compensation => record.status = .compensating ∧ 0 ≤ record.compensationIndex ∧
      engine.definition.compensates record.compensationIndex.toNat = true

/-- A handler that is called after a `Save` can be called for the record. -/
def AfterSave.Fits (engine : Engine) (record : Record) : AfterSave → Prop
  | .invoke phase => phase.Fits engine record
  | .again | .next | .compensationFailed _ _ => True

/-- An owner of the record `base` may save `record`. -/
structure Proposes (engine : Engine) (id : String) (history : List SagaEvent) (base record : Record)
    (after : AfterSave) : Prop where
  revision : record.revision = base.revision
  later : Later base record
  justified : Justified engine id history record
  fits : after.Fits engine record

/-- A record that was the stored one. -/
structure Copy (record stored : Record) : Prop where
  le : record.revision ≤ stored.revision
  eq : record.revision = stored.revision → record = stored
  later : Later record stored

/-! ## Small facts -/

variable {engine : Engine} {id : String} {history : List SagaEvent} {record stored : Record}

theorem Later.refl (record : Record) : Later record record := fun h => ⟨h, rfl, le_refl _⟩

theorem Later.trans {first second third : Record} (h : Later first second)
    (h' : Later second third) : Later first third := by
  intro hne
  obtain ⟨hsecond, hnext, hindex⟩ := h hne
  obtain ⟨hthird, hnext', hindex'⟩ := h' hsecond
  exact ⟨hthird, hnext'.trans hnext, hindex'.trans hindex⟩

theorem Copy.refl (record : Record) : Copy record record :=
  ⟨UInt64.le_refl _, fun _ => rfl, .refl _⟩

/-- A copy of a record that is replaced is older than the new one. -/
theorem Copy.replaced (h : Copy record stored) {saved : Record}
    (hlt : stored.revision < saved.revision) (hlater : Later stored saved) : Copy record saved := by
  have hlt := UInt64.lt_of_le_of_lt h.le hlt
  exact ⟨UInt64.le_of_lt hlt, fun heq => absurd heq (UInt64.ne_of_lt hlt), h.later.trans hlater⟩

variable {phase : Phase}

theorem Done.append {index : Nat} (h : Done history phase index) (e : SagaEvent) :
    Done (history ++ [e]) phase index := by
  obtain ⟨d, hd, hresult⟩ := h
  exact ⟨d, List.mem_append_left _ hd, hresult⟩

theorem Justified.append (h : Justified engine id history record) (e : SagaEvent) :
    Justified engine id (history ++ [e]) record :=
  { h with
    actions := fun index hindex => (h.actions index hindex).append e
    compensations := fun hreversed index hlt hnext hcomp =>
      (h.compensations hreversed index hlt hnext hcomp).append e }

/-- The revision and the time of a record are not part of what it says. -/
theorem Justified.saved (h : Justified engine id history record) (revision : UInt64) (now : Time) :
    Justified engine id history { record with revision, updatedAt := now } :=
  { h with }

theorem Phase.Fits.saved (h : phase.Fits engine record) (revision : UInt64) (now : Time) :
    phase.Fits engine { record with revision, updatedAt := now } := by
  cases phase <;> exact h

/-! ## What an owner saves -/

/-- The control of an owner that saves what it may save, or returns. -/
def Control.Saves (P : Record → AfterSave → Prop) : Control → Prop
  | .saving record after => P record after
  | .returned _ => True
  | _ => False

theorem turn_saves (owner : Owner) (h : Justified engine id history record)
    (cause : Option String) :
    (owner.turn engine record cause).control.Saves (Proposes engine id history record) := by
  unfold Owner.turn
  split
  · trivial
  split
  case h_1 | h_2 | h_3 => trivial
  case h_6 => trivial
  case h_4 hrunning =>
    have hlater (other : Record) : Later record other := fun hne => absurd hrunning hne
    split
    next hle =>
      exact ⟨rfl, hlater _, ⟨h.id_eq, h.nextStep_le, h.actions, nofun,
        nofun, fun _ => le_antisymm h.nextStep_le hle⟩, trivial⟩
    next hlt =>
      exact ⟨rfl, hlater _, { h with }, hrunning, not_le.mp hlt⟩
  case h_5 hcompensating =>
    have hreversed : record.status.reversed = true := by rw [hcompensating]; rfl
    split
    · exact ⟨rfl, fun _ => ⟨by simp, rfl, le_refl _⟩, ⟨h.id_eq, h.nextStep_le, h.actions,
        fun _ => h.below hreversed, fun _ => h.compensations hreversed, nofun⟩,
        trivial⟩
    next hnonneg =>
      split
      · trivial
      next step hstep =>
        have hcompensates : engine.definition.compensates record.compensationIndex.toNat =
            step.compensate := by
          rw [Definition.compensates, hstep]
          rfl
        split
        next hnone =>
          refine ⟨rfl, fun hne => ⟨hne, rfl, by dsimp only; omega⟩,
            { h with below := fun _ => ?_, compensations := fun _ index hlt hnext hcomp => ?_ },
              trivial⟩
          · have := h.below hreversed
            dsimp only
            omega
          · -- the index that is left has no compensation
            by_cases heq : record.compensationIndex.toNat = index
            · rw [← heq, hcompensates] at hcomp
              rw [hcomp] at hnone
              cases hnone
            · exact h.compensations hreversed index (by dsimp only at hlt; omega) hnext hcomp
        next hsome =>
          refine ⟨rfl, fun hne => ⟨hne, rfl, le_refl _⟩, { h with }, hcompensating,
            not_lt.mp hnonneg, ?_⟩
          rw [hcompensates]
          simpa using hsome

theorem handled_saves (owner : Owner) (h : Justified engine id history record)
    (hfits : phase.Fits engine record) {err : Option String}
    (hdone : err = none → Done history phase (record.stepIndex phase)) (cause : Option String)
    (reason : String) : (owner.handled engine record phase err cause reason).control.Saves
      (Proposes engine id history record) := by
  cases phase with
  | action =>
    have hlater (other : Record) : Later record other := fun hne => absurd hfits.1 hne
    cases err with
    | none =>
      have hforward : record.status.reversed ≠ true ∧ record.status ≠ .completed := by
        rw [hfits.1]; decide
      refine ⟨rfl, hlater _, ⟨h.id_eq, hfits.2, fun index hindex => ?_, fun hreversed =>
        absurd hreversed hforward.1,
        fun hreversed => absurd hreversed hforward.1, fun hcompleted =>
          absurd hcompleted hforward.2⟩, trivial⟩
      rcases Nat.lt_succ_iff_lt_or_eq.mp hindex with hlt | rfl
      · exact h.actions index hlt
      · exact hdone rfl
    | some err =>
      cases cause with
      | some cause => trivial
      | none =>
        refine ⟨rfl, hlater _, ⟨h.id_eq, h.nextStep_le, h.actions, fun _ => ?_,
          fun _ index hlt hnext _ => ?_, nofun⟩, trivial⟩
        · dsimp only
          omega
        · dsimp only at hlt hnext
          omega
  | compensation =>
    obtain ⟨hcompensating, hnonneg, hcompensates⟩ := hfits
    have hreversed : record.status.reversed = true := by rw [hcompensating]; rfl
    have hbelow := h.below hreversed
    cases err with
    | none =>
      refine ⟨rfl, fun hne => ⟨hne, rfl, by dsimp only; omega⟩, ⟨h.id_eq, h.nextStep_le, h.actions,
        fun _ => by dsimp only; omega, fun _ index hlt hnext hcomp => ?_, h.completed⟩, trivial⟩
      by_cases heq : record.compensationIndex.toNat = index
      · exact heq ▸ hdone rfl
      · exact h.compensations hreversed index (by dsimp only at hlt; omega) hnext hcomp
    | some err =>
      cases cause with
      | some cause => trivial
      | none =>
        refine ⟨rfl, fun hne => ⟨?_, rfl, le_refl _⟩, ⟨h.id_eq, h.nextStep_le, h.actions,
          fun _ => hbelow, fun _ => h.compensations hreversed, fun hcompleted => ?_⟩, trivial⟩
        · split
          · simp
          · exact hne
        · split at hcompleted
          · cases hcompleted
          · rw [hcompensating] at hcompleted
            cases hcompleted

/-! ## The owners and the stored record -/

/-- A record that an owner has saved is the stored one, until an owner with a larger fence saves. -/
def Owns (r : Repository) (fence : UInt64) (record stored : Record) : Prop :=
  fence ≤ r.fence record.id ∧ (fence = r.fence record.id → record = stored)

/-- What the control of an owner has to do with the stored record. -/
def OwnerInv (engine : Engine) (id : String) (history : List SagaEvent) (r : Repository)
    (fence : UInt64) : Control → Prop
  | .loading | .creating | .returned _ => True
  | .loop record => Justified engine id history record ∧
      ∃ stored, r.records.lookup id = some stored ∧ Copy record stored
  | .saving record after => ∃ base stored, r.records.lookup id = some stored ∧ Copy base stored ∧
      Proposes engine id history base record after
  | .invoking record phase | .handling record phase => Justified engine id history record ∧
      phase.Fits engine record ∧
      ∃ stored, r.records.lookup id = some stored ∧ Copy record stored ∧ Owns r fence record stored

variable {r : Repository} {fence other : UInt64} {control : Control}

section

variable (h : OwnerInv engine id history r fence control)

include h

theorem OwnerInv.append (e : SagaEvent) : OwnerInv engine id (history ++ [e]) r fence control := by
  cases control with
  | loading | creating | returned => trivial
  | saving record after =>
    obtain ⟨base, stored, hstored, hcopy, hproposes⟩ := h
    exact ⟨base, stored, hstored, hcopy, hproposes.revision, hproposes.later,
      hproposes.justified.append e, hproposes.fits⟩
  | loop | invoking | handling => exact ⟨h.1.append e, h.2⟩

/-- Without a stored record no owner has one. -/
theorem OwnerInv.of_none
    (hnone : r.records.lookup id = none) (r' : Repository) :
    OwnerInv engine id history r' fence control := by
  cases control with
  | loading | creating | returned => trivial
  | loop record | saving record =>
    obtain ⟨-, stored, hstored, -⟩ := h
    rw [hnone] at hstored
    cases hstored
  | invoking record phase | handling record phase =>
    obtain ⟨-, -, stored, hstored, -⟩ := h
    rw [hnone] at hstored
    cases hstored

/-- Another owner replaces the stored record. -/
theorem OwnerInv.put {saved : Record} (hid : saved.id = id)
    (hstored : r.records.lookup id = some stored)
    (hlt : stored.revision < saved.revision) (hlater : Later stored saved)
    (hfence : r.fence id ≤ other) (hne : fence ≠ other) :
    OwnerInv engine id history (r.put saved other) fence control := by
  subst hid
  cases control with
  | loading | creating | returned => trivial
  | loop record =>
    obtain ⟨hjustified, current, hcurrent, hcopy⟩ := h
    obtain rfl : current = stored := Option.mem_unique hcurrent hstored
    exact ⟨hjustified, saved, Repository.records_put, hcopy.replaced hlt hlater⟩
  | saving record after =>
    obtain ⟨base, current, hcurrent, hcopy, hproposes⟩ := h
    obtain rfl : current = stored := Option.mem_unique hcurrent hstored
    exact ⟨base, saved, Repository.records_put, hcopy.replaced hlt hlater, hproposes⟩
  | invoking record phase | handling record phase =>
    obtain ⟨hjustified, hfits, current, hcurrent, hcopy, howns⟩ := h
    obtain rfl : current = stored := Option.mem_unique hcurrent hstored
    rw [Owns, hjustified.id_eq] at howns
    refine ⟨hjustified, hfits, saved, Repository.records_put, hcopy.replaced hlt hlater, ?_⟩
    rw [Owns, hjustified.id_eq, Repository.fence_put]
    exact ⟨UInt64.le_trans howns.1 hfence, fun heq => absurd heq hne⟩

end

/-- What a step of an owner writes. -/
inductive Writes (engine : Engine) (id : String) (history : List SagaEvent) (r : Repository)
    (fence : UInt64) : Repository → Prop
  | same : Writes engine id history r fence r
  | created {record : Record} (hnone : r.records.lookup id = none)
      (hjustified : Justified engine id history record) :
      Writes engine id history r fence (r.put record fence)
  | saved {stored saved : Record} (hstored : r.records.lookup id = some stored)
      (hlt : stored.revision < saved.revision) (hlater : Later stored saved)
      (hfence : r.fence id ≤ fence) (hjustified : Justified engine id history saved) :
      Writes engine id history r fence (r.put saved fence)

variable {r' : Repository}

section

variable (h : Writes engine id history r fence r')

include h

theorem Writes.justified
    (hstored : ∀ record, r.records.lookup id = some record → Justified engine id history record)
    (hlookup : r'.records.lookup id = some record) : Justified engine id history record := by
  cases h with
  | same => exact hstored record hlookup
  | created _ hjustified | saved _ _ _ _ hjustified =>
    rw [← hjustified.id_eq, Repository.records_put] at hlookup
    exact Option.some.inj hlookup ▸ hjustified

theorem Writes.owner (hne : other ≠ fence)
    (howner : OwnerInv engine id history r other control) :
    OwnerInv engine id history r' other control := by
  cases h with
  | same => exact howner
  | created hnone => exact howner.of_none hnone _
  | saved hstored hlt hlater hfence hjustified =>
    exact howner.put hjustified.id_eq hstored hlt hlater hfence hne

/-- What was undone stays undone. -/
theorem Writes.undone {index : Int}
    (hundone : ∃ record, r.records.lookup id = some record ∧ record.status ≠ .running ∧
      record.compensationIndex ≤ index) :
    ∃ record, r'.records.lookup id = some record ∧ record.status ≠ .running ∧
      record.compensationIndex ≤ index := by
  obtain ⟨record, hrecord, hne, hle⟩ := hundone
  cases h with
  | same => exact ⟨record, hrecord, hne, hle⟩
  | created hnone =>
    rw [hnone] at hrecord
    cases hrecord
  | @saved stored saved hstored _ hlater _ hjustified =>
    obtain rfl : record = stored := Option.mem_unique hrecord hstored
    obtain ⟨hne', -, hle'⟩ := hlater hne
    exact ⟨saved, by rw [← hjustified.id_eq, Repository.records_put], hne', hle'.trans hle⟩

end

/-- The checks of `loadOrCreate` do not change a record. -/
theorem accept_ok {accepted : Record} (h : engine.accept record = .ok accepted) :
    accepted = record := by
  unfold Engine.accept at h
  split at h
  · cases h
  split at h
  · cases h
  split at h
  · cases h
  exact (Except.ok.inj h).symm

theorem loaded_inv (owner : Owner) (hjustified : Justified engine id history record)
    (hstored : r.records.lookup id = some record) :
    OwnerInv engine id history r fence (owner.loaded engine (.ok record)).control := by
  simp only [Owner.loaded]
  split
  · trivial
  next accepted haccept =>
    rw [accept_ok haccept]
    exact ⟨hjustified, record, hstored, .refl _⟩

theorem newRecord_justified (now : Time) (revision : UInt64) :
    Justified engine id history { engine.newRecord id now with revision } :=
  ⟨rfl, Nat.zero_le _, fun _ hindex => absurd hindex (Nat.not_lt_zero _), nofun, nofun, nofun⟩

theorem saved_inv (owner : Owner) {after : AfterSave}
    (hjustified : Justified engine id history record) (hfits : after.Fits engine record) :
    OwnerInv engine id history (r.put record fence) fence
      (owner.saved (.ok record) after).control := by
  have hlookup : (r.put record fence).records.lookup id = some record := by
    rw [← hjustified.id_eq, Repository.records_put]
  cases after with
  | again | next => exact ⟨hjustified, record, hlookup, .refl _⟩
  | invoke phase =>
    exact ⟨hjustified, hfits, record, hlookup, .refl _, UInt64.le_of_eq Repository.fence_put.symm,
      fun _ => rfl⟩
  | compensationFailed => trivial

/-- An owner that may save goes on with its proposal. -/
theorem Control.Saves.inv {base : Record} (h : control.Saves (Proposes engine id history base))
    (hstored : r.records.lookup id = some stored) (hcopy : Copy base stored) :
    OwnerInv engine id history r fence control := by
  cases control with
  | saving record after => exact ⟨base, stored, hstored, hcopy, h⟩
  | loading | creating | returned => trivial
  | loop | invoking | handling => exact h.elim

theorem create_inv (owner : Owner) (now : Time) (failure : Option String) :
    let result := r.create (engine.newRecord id now) fence failure
    Writes engine id history r fence result.2 ∧
      OwnerInv engine id history result.2 fence (owner.loaded engine result.1).control := by
  rcases r.create_cases (engine.newRecord id now) fence failure with ⟨err, heq⟩ | ⟨hnone, heq⟩
  · rw [heq]
    exact ⟨.same, trivial⟩
  · rw [heq]
    have hjustified : Justified engine id history { engine.newRecord id now with revision := 1 } :=
      newRecord_justified now 1
    exact ⟨.created hnone hjustified, loaded_inv owner hjustified Repository.records_put⟩

theorem save_inv (owner : Owner) {after : AfterSave}
    (h : OwnerInv engine id history r fence (.saving record after)) (now : Time)
    (failure : Option String) :
    let result := r.save { record with updatedAt := now } record.revision fence failure
    Writes engine id history r fence result.2 ∧
      OwnerInv engine id history result.2 fence (owner.saved result.1 after).control := by
  obtain ⟨base, stored, hstored, hcopy, hproposes⟩ := h
  have hid := hproposes.justified.id_eq
  rcases r.save_cases { record with updatedAt := now } record.revision fence failure with
    ⟨err, heq⟩ | ⟨current, hcurrent, hfence, hrevision, hlt, heq⟩
  · rw [heq]
    refine ⟨.same, ?_⟩
    cases after <;> trivial
  · rw [heq]
    rw [hid] at hcurrent hfence
    obtain rfl : current = stored := Option.mem_unique hcurrent hstored
    -- the revision is still the one of the owner's record: nobody has saved since
    obtain rfl : base = current := hcopy.eq (hproposes.revision.symm.trans hrevision.symm)
    have hjustified := hproposes.justified.saved (record.revision + 1) now
    refine ⟨.saved hstored (hrevision ▸ hlt) hproposes.later hfence hjustified,
      saved_inv owner hjustified ?_⟩
    cases after with
    | invoke phase => exact Phase.Fits.saved hproposes.fits _ _
    | again | next | compensationFailed => trivial

/-- **A step of an owner**: what it writes, and where the owner is then. -/
theorem exec_inv {owner : Owner} (h : OwnerInv engine id history r fence owner.control)
    (hstored : ∀ record, r.records.lookup id = some record → Justified engine id history record)
    (op : OwnerOp) {e : SagaEvent} (he : e.output = (owner.exec engine id fence r op).1) :
    Writes engine id history r fence (owner.exec engine id fence r op).2.1 ∧
      OwnerInv engine id (history ++ [e]) (owner.exec engine id fence r op).2.1 fence
        (owner.exec engine id fence r op).2.2.control := by
  unfold Owner.exec at he ⊢
  split
  next failure hcontrol =>
    split
    · exact ⟨.same, trivial⟩
    next result _ =>
      refine ⟨.same, OwnerInv.append ?_ e⟩
      cases hload : r.load id failure with
      | error err => trivial
      | ok record =>
        have hlookup := Repository.load_ok hload
        exact loaded_inv owner (hstored record hlookup) hlookup
  next now failure hcontrol =>
    obtain ⟨hwrites, hinv⟩ := create_inv (r := r) owner now failure
    exact ⟨hwrites, OwnerInv.append hinv e⟩
  next record cause hcontrol =>
    rw [hcontrol] at h
    obtain ⟨hjustified, stored, hlookup, hcopy⟩ := h
    exact ⟨.same, ((turn_saves owner hjustified cause).inv hlookup hcopy).append e⟩
  next record after now failure hcontrol =>
    rw [hcontrol] at h
    obtain ⟨hwrites, hinv⟩ := save_inv owner h now failure
    exact ⟨hwrites, OwnerInv.append hinv e⟩
  next record phase hcontrol =>
    rw [hcontrol] at h
    exact ⟨.same, OwnerInv.append h e⟩
  next record phase result expired cause reason hcontrol =>
    rw [hcontrol] at h
    obtain ⟨hjustified, hfits, stored, hlookup, hcopy, -⟩ := h
    simp only [hcontrol] at he
    refine ⟨.same, (handled_saves owner (hjustified.append e) hfits (fun hnone => ?_) cause
      reason).inv hlookup hcopy⟩
    exact ⟨e, by simp, result, by rw [he, hnone]⟩
  next => exact ⟨.same, h.append e⟩

/-! ## Steps of the machine -/

/-- What a step does to the owners: nothing but a new owner, or a step of one of them. -/
inductive Moves (engine : Engine) (id : String) (s : SagaState) :
    SagaOp → SagaReply × SagaState → Prop
  | idle {op : SagaOp} {reply : SagaReply} {s' : SagaState}
      (hreply : reply = .silent ∨ reply = .contended)
      (hrepository : s'.repository = s.repository)
      (howners : ∀ fence owner, s'.owners fence = some owner → s.owners fence = some owner ∨
        owner = {}) :
      Moves engine id s op (reply, s')
  | steps {fence : UInt64} {owner : Owner} (howner : s.owners fence = some owner) (op : OwnerOp) :
      Moves engine id s (.step fence op) ((owner.exec engine id fence s.repository op).1,
        { s with repository := (owner.exec engine id fence s.repository op).2.1
                 owners := Function.update s.owners fence
                   (some (owner.exec engine id fence s.repository op).2.2) })

theorem exec_moves {s : SagaState} (op : SagaOp) : Moves engine id s op (s.exec engine id op) := by
  have hsame {fence : UInt64} {owner : Owner} (h : s.owners fence = some owner) :
      s.owners fence = some owner ∨ owner = {} := .inl h
  cases op with
  | leaseEnds => exact .idle (.inl rfl) rfl fun _ _ => hsame
  | acquire fence =>
    simp only [SagaState.exec]
    split
    · exact .idle (.inl rfl) rfl fun _ _ => hsame
    · split
      · exact .idle (.inr rfl) rfl fun _ _ => hsame
      · refine .idle (.inl rfl) rfl fun other owner howner => ?_
        dsimp only at howner
        by_cases heq : other = fence
        · rw [heq, Function.update_self] at howner
          exact .inr (Option.some.inj howner).symm
        · rw [Function.update_of_ne heq] at howner
          exact .inl howner
  | step fence op =>
    cases howner : s.owners fence with
    | none =>
      simp only [SagaState.exec, howner]
      exact .idle (.inl rfl) rfl fun _ _ => hsame
    | some owner =>
      simp only [SagaState.exec, howner]
      exact .steps howner op

end Keelith.Saga

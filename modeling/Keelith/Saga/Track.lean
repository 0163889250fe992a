import Keelith.Saga.OwnerLemmas
import Mathlib.Data.Prod.Lex

/-!
# What the owners save

Any number of engines run one instance (`enginesMachine`). Whatever their definitions are, a `Save`
goes on from the stored record in one of nine ways.

- `Advances`: the nine ways, with the event that a failed action was saved for.
- `Record.position`: how far a record is, over both phases. No `Save` lowers it, and one that is
  followed by a call of a handler raises it.
- `Tracks`: the control of an owner against the stored record. Its record was the stored one, and
  still is if the revision is the same.

`exec_tracks`: what a step of an owner stores, and where the owner is then.
-/

namespace Keelith.Saga

/-! ## Any number of engines -/

/-- The engine that takes a step. -/
def engineOf (engines : UInt64 → Engine) : SagaOp → Engine
  | .acquire fence | .step fence _ => engines fence
  | .leaseEnds => engines 0

/-- The runs of one instance by engines that may differ: `engines fence` is the one that got the
lease with this fence. -/
def enginesMachine (engines : UInt64 → Engine) (id : String) :
    Machine SagaState SagaOp SagaReply where
  init s := s = ⟨.new, none, 0, fun _ => none⟩
  exec s op := s.exec (engineOf engines op) id op
  may _ s op := s.May op

/-- Engines that do not differ. -/
theorem enginesMachine_const (engine : Engine) (id : String) :
    enginesMachine (fun _ => engine) id = sagaMachine engine id := by
  have hengine (op : SagaOp) : engineOf (fun _ => engine) op = engine := by cases op <;> rfl
  simp only [enginesMachine, sagaMachine, hengine]

/-! ## How far a record is -/

/-- How far an attempt is: actions go up, compensations go down. -/
def position : Phase → Nat → Nat → ℕ ×ₗ ℤ ×ₗ ℕ
  | .action, index, attempt => toLex (0, toLex ((index : ℤ), attempt))
  | .compensation, index, attempt => toLex (1, toLex (-(index : ℤ), attempt))

/-- How far a record is. -/
def Record.position (record : Record) : ℕ ×ₗ ℤ ×ₗ ℕ :=
  match record.status with
  | .running => toLex (0, toLex ((record.nextStep : ℤ), record.attempt))
  | .compensating => toLex (1, toLex (-record.compensationIndex, record.attempt))
  | _ => toLex (2, toLex (0, 0))

/-- The record is at a step of this phase. -/
def Phase.At (record : Record) : Phase → Prop
  | .action => record.status = .running
  | .compensation => record.status = .compensating ∧ 0 ≤ record.compensationIndex

variable {phase : Phase}

theorem Phase.At.position {record : Record} (h : phase.At record) :
    record.position = Saga.position phase (record.stepIndex phase) record.attempt := by
  cases phase with
  | action =>
    have hstatus : record.status = .running := h
    simp [Record.position, Saga.position, Record.stepIndex, hstatus]
  | compensation =>
    obtain ⟨hstatus, hnonneg⟩ := h
    simp [Record.position, Saga.position, Record.stepIndex, hstatus, Int.toNat_of_nonneg hnonneg]

/-! ## What is saved -/

/-- The step whose action ends here, with an attempt that the engine counts as failed. -/
def failedAction (e : SagaEvent) : Option Nat :=
  match e.input, e.output with
  | .step _ (.handled _ _ none _), .handled .action index _ (some _) => some index
  | _, _ => none

/-- The ways in which an owner goes on from the record `base`. -/
inductive Advances (history : List SagaEvent) (base : Record) : Record → AfterSave → Prop
  | completes (hstatus : base.status = .running) :
      Advances history base { base with status := .completed, attempt := 0 } .again
  | attempts (hstatus : base.status = .running) :
      Advances history base { base with attempt := base.attempt + 1 } (.invoke .action)
  | fails (hstatus : base.status = .running) {e : SagaEvent} (he : e ∈ history)
      (hfailed : failedAction e = some base.nextStep) (reason : String) :
      Advances history base { base with
        status := .compensating
        compensationIndex := base.nextStep - 1
        attempt := 0
        failureReason := reason
        causeReason := reason } .again
  | succeeds (hstatus : base.status = .running) :
      Advances history base
        { base with nextStep := base.nextStep + 1, attempt := 0, failureReason := "" } .next
  | ends (hstatus : base.status = .compensating) (hindex : base.compensationIndex < 0) :
      Advances history base { base with status := .compensated, attempt := 0 } .again
  | skips (hstatus : base.status = .compensating) :
      Advances history base
        { base with compensationIndex := base.compensationIndex - 1, attempt := 0 } .again
  | retries (hstatus : base.status = .compensating) (hindex : 0 ≤ base.compensationIndex) :
      Advances history base { base with attempt := base.attempt + 1 } (.invoke .compensation)
  | undoes (hstatus : base.status = .compensating) (reason : String) :
      Advances history base { base with
        compensationIndex := base.compensationIndex - 1
        attempt := 0
        failureReason := reason } .next
  | remains (hstatus : base.status = .compensating) {status : Status}
      (hnew : status = .failed ∨ status = .compensating) (reason step err : String) :
      Advances history base { base with failureReason := reason, status }
        (.compensationFailed step err)

variable {history : List SagaEvent} {base record stored saved : Record} {after : AfterSave}

section

variable (h : Advances history base record after)

include h

theorem Advances.append (e : SagaEvent) : Advances (history ++ [e]) base record after := by
  cases h with
  | completes hstatus => exact .completes hstatus
  | attempts hstatus => exact .attempts hstatus
  | fails hstatus he hfailed reason =>
    exact .fails hstatus (List.mem_append_left _ he) hfailed reason
  | succeeds hstatus => exact .succeeds hstatus
  | ends hstatus hindex => exact .ends hstatus hindex
  | skips hstatus => exact .skips hstatus
  | retries hstatus hindex => exact .retries hstatus hindex
  | undoes hstatus reason => exact .undoes hstatus reason
  | remains hstatus hnew reason step err => exact .remains hstatus hnew reason step err

theorem Advances.nextStep_le : base.nextStep ≤ record.nextStep := by
  cases h <;> simp

/-- No `Save` goes back. -/
theorem Advances.position_le : base.position ≤ record.position := by
  cases h with
  | remains hstatus hnew =>
    rcases hnew with rfl | rfl <;> simp [Record.position, hstatus, Prod.Lex.toLex_le_toLex]
  | skips hstatus | undoes hstatus =>
    simp only [Record.position, hstatus, Prod.Lex.toLex_le_toLex]
    exact .inr ⟨trivial, .inl (by omega)⟩
  | completes hstatus | attempts hstatus | fails hstatus | succeeds hstatus | ends hstatus
  | retries hstatus => simp [Record.position, hstatus, Prod.Lex.toLex_le_toLex]

end

/-- A new attempt is further. -/
theorem Advances.position_lt (h : Advances history base record (.invoke phase)) :
    base.position < record.position := by
  cases h with
  | attempts hstatus | retries hstatus => simp [Record.position, hstatus, Prod.Lex.toLex_lt_toLex]

theorem Advances.at (h : Advances history base record (.invoke phase)) : phase.At record := by
  cases h with
  | attempts hstatus => exact hstatus
  | retries hstatus hindex => exact ⟨hstatus, hindex⟩

/-! ## An owner against the stored record -/

/-- A record that was the stored one. -/
structure Seen (record stored : Record) : Prop where
  le : record.revision ≤ stored.revision
  eq : record.revision = stored.revision → record = stored
  position : record.position ≤ stored.position
  nextStep : record.nextStep ≤ stored.nextStep

theorem Seen.refl (record : Record) : Seen record record :=
  ⟨UInt64.le_refl _, fun _ => rfl, le_refl _, le_refl _⟩

/-- A record that is replaced by a new one. -/
structure Replaces (stored saved : Record) : Prop where
  revision : stored.revision < saved.revision
  position : stored.position ≤ saved.position
  nextStep : stored.nextStep ≤ saved.nextStep

theorem Seen.replaced (h : Seen record stored) (hnew : Replaces stored saved) :
    Seen record saved := by
  have hlt := UInt64.lt_of_le_of_lt h.le hnew.revision
  exact ⟨UInt64.le_of_lt hlt, fun heq => absurd heq (UInt64.ne_of_lt hlt),
    h.position.trans hnew.position, h.nextStep.trans hnew.nextStep⟩

/-- A `Save` under the fence has succeeded with this record. -/
def SavedUnder (e : SagaEvent) (fence : UInt64) (saved : Record) : Prop :=
  ∃ owner record after now failure, e.pre.owners fence = some owner ∧
    owner.control = .saving record after ∧ e.input = .step fence (.save now failure) ∧
    e.pre.repository.save { record with updatedAt := now } record.revision fence failure =
      (.ok saved, e.post.repository)

/-- The control of an owner against the stored record. -/
def Tracks (id : String) (history : List SagaEvent) (r : Repository) (fence : UInt64) :
    Control → Prop
  | .loading | .creating | .returned _ => True
  | .loop record => record.id = id ∧ ∃ stored, r.records.lookup id = some stored ∧
      Seen record stored
  | .saving record after => record.id = id ∧ ∃ base stored, r.records.lookup id = some stored ∧
      Seen base stored ∧ record.revision = base.revision ∧ Advances history base record after
  | .invoking record phase | .handling record phase => record.id = id ∧ phase.At record ∧
      (∃ stored, r.records.lookup id = some stored ∧ Seen record stored) ∧
      ∃ e ∈ history, SavedUnder e fence record

variable {id : String} {r r' : Repository} {fence other : UInt64} {control : Control}

theorem Tracks.append (h : Tracks id history r fence control) (e : SagaEvent) :
    Tracks id (history ++ [e]) r fence control := by
  cases control with
  | loading | creating | returned => trivial
  | loop record => exact h
  | saving record after =>
    obtain ⟨hid, base, stored, hstored, hseen, hrevision, hadvances⟩ := h
    exact ⟨hid, base, stored, hstored, hseen, hrevision, hadvances.append e⟩
  | invoking record phase | handling record phase =>
    obtain ⟨hid, hat, hstored, d, hd, hsaved⟩ := h
    exact ⟨hid, hat, hstored, d, List.mem_append_left _ hd, hsaved⟩

/-- What a step of an owner stores. -/
inductive Stores (id : String) (history : List SagaEvent) (r : Repository) (fence : UInt64) :
    Repository → Prop
  | same : Stores id history r fence r
  | created {record : Record} (hid : record.id = id) (hnone : r.records.lookup id = none)
      (hstatus : record.status = .running) : Stores id history r fence (r.put record fence)
  | saved {stored record : Record} {after : AfterSave} {revision : UInt64} {now : Time}
      (hid : record.id = id) (hstored : r.records.lookup id = some stored)
      (hadvances : Advances history stored record after) (hlt : stored.revision < revision)
      (hfence : r.fence id ≤ fence) :
      Stores id history r fence (r.put { record with revision, updatedAt := now } fence)

section

variable (h : Stores id history r fence r')

include h

theorem Stores.keyed (hkeyed : ∀ record, r.records.lookup id = some record → record.id = id)
    (hlookup : r'.records.lookup id = some record) : record.id = id := by
  cases h with
  | same => exact hkeyed record hlookup
  | created hid | saved hid =>
    rw [Repository.lookup_put (by exact hid)] at hlookup
    exact Option.some.inj hlookup ▸ hid

/-- The stored record is replaced by one that is not behind it. -/
theorem Stores.replaces (hstored : r.records.lookup id = some stored) :
    ∃ saved, r'.records.lookup id = some saved ∧ (saved = stored ∨ Replaces stored saved) := by
  cases h with
  | same => exact ⟨stored, hstored, .inl rfl⟩
  | created _ hnone =>
    rw [hnone] at hstored
    cases hstored
  | @saved current record after revision now hid hcurrent hadvances hlt =>
    obtain rfl : current = stored := Option.mem_unique hcurrent hstored
    exact ⟨_, Repository.lookup_put hid, .inr ⟨hlt, hadvances.position_le, hadvances.nextStep_le⟩⟩

/-- The fence of a stored record is not lowered. -/
theorem Stores.fence_le (hstored : r.records.lookup id = some stored) :
    r.fence id ≤ r'.fence id := by
  cases h with
  | same => exact UInt64.le_refl _
  | created _ hnone =>
    rw [hnone] at hstored
    cases hstored
  | saved hid _ _ _ hfence => rwa [Repository.put_fence (by exact hid)]

/-- A record that was the stored one stays so. -/
theorem Stores.seen (hseen : ∃ stored, r.records.lookup id = some stored ∧ Seen record stored) :
    ∃ stored, r'.records.lookup id = some stored ∧ Seen record stored := by
  obtain ⟨stored, hstored, hseen⟩ := hseen
  obtain ⟨saved, hsaved, heq | hnew⟩ := h.replaces hstored
  · exact ⟨saved, hsaved, heq ▸ hseen⟩
  · exact ⟨saved, hsaved, hseen.replaced hnew⟩

/-- The other owners. -/
theorem Stores.tracks (htracks : Tracks id history r other control) :
    Tracks id history r' other control := by
  cases control with
  | loading | creating | returned => trivial
  | loop record => exact ⟨htracks.1, h.seen htracks.2⟩
  | saving record after =>
    obtain ⟨hid, base, stored, hstored, hseen, hrevision, hadvances⟩ := htracks
    obtain ⟨stored, hstored, hseen⟩ := h.seen ⟨stored, hstored, hseen⟩
    exact ⟨hid, base, stored, hstored, hseen, hrevision, hadvances⟩
  | invoking record phase | handling record phase =>
    obtain ⟨hid, hat, hstored, hsaved⟩ := htracks
    exact ⟨hid, hat, h.seen hstored, hsaved⟩

end

/-! ## A step of an owner -/

/-- The control of an owner that goes on from `base`, or returns. -/
def Control.GoesOn (history : List SagaEvent) (base : Record) : Control → Prop
  | .saving record after =>
    record.id = base.id ∧ record.revision = base.revision ∧ Advances history base record after
  | .returned _ => True
  | _ => False

theorem Control.GoesOn.tracks (h : control.GoesOn history base) (hid : base.id = id)
    (hseen : ∃ stored, r.records.lookup id = some stored ∧ Seen base stored) :
    Tracks id history r fence control := by
  cases control with
  | saving record after =>
    obtain ⟨stored, hstored, hseen⟩ := hseen
    exact ⟨h.1.trans hid, base, stored, hstored, hseen, h.2.1, h.2.2⟩
  | loading | creating | returned => trivial
  | loop | invoking | handling => exact h.elim

section

variable (engine : Engine) (owner : Owner)

include engine owner

theorem turn_goesOn (record : Record) (cause : Option String) :
    (owner.turn engine record cause).control.GoesOn history record := by
  unfold Owner.turn
  split
  · trivial
  split
  case h_1 | h_2 | h_3 | h_6 => trivial
  case h_4 hrunning =>
    split
    · exact ⟨rfl, rfl, .completes hrunning⟩
    · exact ⟨rfl, rfl, .attempts hrunning⟩
  case h_5 hcompensating =>
    split
    next hindex => exact ⟨rfl, rfl, .ends hcompensating hindex⟩
    next hindex =>
      split
      · trivial
      · split
        · exact ⟨rfl, rfl, .skips hcompensating⟩
        · exact ⟨rfl, rfl, .retries hcompensating (not_lt.mp hindex)⟩

theorem handled_goesOn (hat : phase.At record) {err cause : Option String} (reason : String)
    (hfailed : phase = .action → err ≠ none → cause = none →
      ∃ e ∈ history, failedAction e = some record.nextStep) :
    (owner.handled engine record phase err cause reason).control.GoesOn history record := by
  cases phase with
  | action =>
    cases err with
    | none => exact ⟨rfl, rfl, .succeeds hat⟩
    | some err =>
      cases cause with
      | some cause => trivial
      | none =>
        obtain ⟨e, he, hfailed⟩ := hfailed rfl (by simp) rfl
        exact ⟨rfl, rfl, .fails hat he hfailed _⟩
  | compensation =>
    cases err with
    | none => exact ⟨rfl, rfl, .undoes hat.1 _⟩
    | some err =>
      cases cause with
      | some cause => trivial
      | none =>
        refine ⟨rfl, rfl, .remains hat.1 ?_ _ _ _⟩
        split
        · exact .inl rfl
        · exact .inr hat.1

theorem loaded_tracks (hid : record.id = id)
    (hstored : r.records.lookup id = some record) :
    Tracks id history r fence (owner.loaded engine (.ok record)).control := by
  simp only [Owner.loaded]
  split
  · trivial
  next accepted haccept =>
    rw [accept_ok haccept]
    exact ⟨hid, record, hstored, .refl _⟩

theorem create_tracks (now : Time) (failure : Option String) :
    let result := r.create (engine.newRecord id now) fence failure
    Stores id history r fence result.2 ∧
      Tracks id history result.2 fence (owner.loaded engine result.1).control := by
  rcases r.create_cases (engine.newRecord id now) fence failure with ⟨err, heq⟩ | ⟨hnone, heq⟩
  · rw [heq]
    exact ⟨.same, trivial⟩
  · rw [heq]
    exact ⟨.created rfl hnone rfl, loaded_tracks engine owner rfl Repository.records_put⟩

end

/-- A `Save` by an owner. -/
theorem save_tracks (owner : Owner) (h : Tracks id history r fence (.saving record after))
    (now : Time) (failure : Option String) {e : SagaEvent}
    (he : ∀ saved r', r.save { record with updatedAt := now } record.revision fence failure =
      (.ok saved, r') → SavedUnder e fence saved) :
    let result := r.save { record with updatedAt := now } record.revision fence failure
    Stores id history r fence result.2 ∧
      Tracks id (history ++ [e]) result.2 fence (owner.saved result.1 after).control := by
  obtain ⟨hid, base, stored, hstored, hseen, hrevision, hadvances⟩ := h
  rcases r.save_cases { record with updatedAt := now } record.revision fence failure with
    ⟨err, heq⟩ | ⟨current, hcurrent, hfence, hexpected, hlt, heq⟩
  · rw [heq]
    refine ⟨.same, ?_⟩
    cases after <;> trivial
  · have hsaved := he _ _ heq
    rw [heq]
    rw [hid] at hcurrent hfence
    obtain rfl : current = stored := Option.mem_unique hcurrent hstored
    -- the revision is still the one of the owner's record: nobody has saved since
    obtain rfl : base = current := hseen.eq (hrevision.symm.trans hexpected.symm)
    refine ⟨@Stores.saved _ _ _ _ base record after _ now hid hstored hadvances
      (hexpected ▸ hlt) hfence, ?_⟩
    let saved : Record := { record with revision := record.revision + 1, updatedAt := now }
    have hlookup : (r.put saved fence).records.lookup id = some saved := Repository.lookup_put hid
    cases after with
    | again | next => exact ⟨hid, _, hlookup, .refl _⟩
    | invoke phase =>
      refine ⟨hid, ?_, ⟨_, hlookup, .refl _⟩, e, by simp, hsaved⟩
      have hat := hadvances.at
      cases phase <;> exact hat
    | compensationFailed => trivial

variable {engine : Engine} {s : SagaState} {owner : Owner}

/-- **A step of an owner**: what it stores, and where the owner is then. -/
theorem exec_tracks (howner : s.owners fence = some owner)
    (h : Tracks id history s.repository fence owner.control)
    (hkeyed : ∀ record, s.repository.records.lookup id = some record → record.id = id)
    (op : OwnerOp)
    {e : SagaEvent} (he : e = ⟨s, .step fence op, (owner.exec engine id fence s.repository op).1,
      { s with repository := (owner.exec engine id fence s.repository op).2.1
               owners := Function.update s.owners fence
                 (some (owner.exec engine id fence s.repository op).2.2) }⟩) :
    Stores id history s.repository fence (owner.exec engine id fence s.repository op).2.1 ∧
      Tracks id (history ++ [e]) (owner.exec engine id fence s.repository op).2.1 fence
        (owner.exec engine id fence s.repository op).2.2.control := by
  unfold Owner.exec at he ⊢
  split
  next failure hcontrol =>
    split
    · exact ⟨.same, trivial⟩
    next result _ =>
      refine ⟨.same, Tracks.append ?_ e⟩
      cases hload : s.repository.load id failure with
      | error err => trivial
      | ok record =>
        have hlookup := Repository.load_ok hload
        exact loaded_tracks engine owner (hkeyed record hlookup) hlookup
  next now failure hcontrol =>
    obtain ⟨hstores, htracks⟩ := create_tracks (r := s.repository) engine owner now failure
    exact ⟨hstores, htracks.append e⟩
  next record cause hcontrol =>
    rw [hcontrol] at h
    exact ⟨.same, ((turn_goesOn engine owner record cause).tracks h.1 h.2).append e⟩
  next record after now failure hcontrol =>
    rw [hcontrol] at h
    refine save_tracks owner h now failure fun saved r' heq => ?_
    refine ⟨owner, record, after, now, failure, ?_, hcontrol, ?_, ?_⟩
    · rw [he]
      exact howner
    · rw [he]
    · rw [he]
      simp only [hcontrol, heq]
  next record phase hcontrol =>
    rw [hcontrol] at h
    exact ⟨.same, Tracks.append h e⟩
  next record phase result expired cause reason hcontrol =>
    rw [hcontrol] at h
    obtain ⟨hid, hat, hseen, -⟩ := h
    simp only [hcontrol] at he
    refine ⟨.same, (handled_goesOn engine owner hat reason fun hphase herr hcause =>
      ?_).tracks hid hseen⟩
    subst hphase hcause
    obtain ⟨err, herr⟩ := Option.ne_none_iff_exists'.mp herr
    exact ⟨e, by simp, by rw [he, herr]; rfl⟩
  next => exact ⟨.same, h.append e⟩

/-! ## Over a run -/

/-- The owners against the stored record. -/
structure TrackInv (id : String) (history : List SagaEvent) (s : SagaState) : Prop where
  keyed : ∀ record, s.repository.records.lookup id = some record → record.id = id
  owner : ∀ fence owner, s.owners fence = some owner →
    Tracks id history s.repository fence owner.control

theorem TrackInv.step (h : TrackInv id history s) (engine : Engine) (op : SagaOp) :
    (∃ fence, Stores id history s.repository fence (s.exec engine id op).2.repository) ∧
      TrackInv id (history ++ [⟨s, op, (s.exec engine id op).1, (s.exec engine id op).2⟩])
        (s.exec engine id op).2 := by
  have hmoves := @exec_moves engine id s op
  generalize s.exec engine id op = result at hmoves ⊢
  cases hmoves with
  | @idle _ reply s' hreply hrepository howners =>
    refine ⟨⟨0, ?_⟩, ⟨?_, fun fence owner howner => ?_⟩⟩
    all_goals rw [hrepository]
    · exact .same
    · exact h.keyed
    · rcases howners fence owner howner with howner | rfl
      · exact (h.owner fence owner howner).append _
      · trivial
  | @steps fence owner howner op =>
    obtain ⟨hstores, htracks⟩ := exec_tracks howner (h.owner fence owner howner) h.keyed op rfl
    refine ⟨⟨fence, hstores⟩, ⟨fun record => hstores.keyed h.keyed, fun other owner' hother => ?_⟩⟩
    dsimp only at hother
    by_cases heq : other = fence
    · subst heq
      rw [Function.update_self] at hother
      exact Option.some.inj hother ▸ htracks
    · rw [Function.update_of_ne heq] at hother
      exact (hstores.tracks (h.owner other owner' hother)).append _

variable {engines : UInt64 → Engine}

/-- **The invariant holds in every run.** -/
theorem trackInv_of_run (h : (enginesMachine engines id).Run history s) :
    TrackInv id history s := by
  refine Machine.Run.invariant (M := enginesMachine engines id) ?_
    (fun history s op hinv _ => (hinv.step (engineOf engines op) op).2) h
  rintro s rfl
  exact ⟨fun record hrecord => (by simp [Repository.new] at hrecord), fun _ _ howner =>
    (by cases howner)⟩

end Keelith.Saga

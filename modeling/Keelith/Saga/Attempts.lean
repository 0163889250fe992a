import Keelith.Saga.Order
import Keelith.Saga.Track

/-!
# The identity of an attempt

Any number of owners run one instance over the repository in memory; leases are lost, and owners
without one go on. `attempts_unique`: no two calls of handlers have the phase, the step and the
attempt in common, each one is of an attempt that its owner has saved, and an owner cannot save
after a newer one has.

- **Attempts**: a new attempt is further than the stored record (`Advances.position_lt`), and what
  was called before, or is about to be called, is not.
- **Fences**: the stored fence is the largest one that has saved.
-/

namespace Keelith.Saga

/-- The identity of a call: its phase, step and attempt. -/
def Invocation.identity (invocation : Invocation) : Phase × Nat × Nat :=
  (invocation.phase, invocation.stepIndex, invocation.attempt)

/-- The identity of the call that a step shows. -/
def SagaReply.identity : SagaReply → Option (Phase × Nat × Nat)
  | .invoked invocation => some invocation.identity
  | _ => none

/-- The identities of the calls, in their order. -/
def identities (history : List SagaEvent) : List (Phase × Nat × Nat) :=
  history.filterMap fun e => e.output.identity

/-- How far a call is. -/
def place (identity : Phase × Nat × Nat) : ℕ ×ₗ ℤ ×ₗ ℕ :=
  position identity.1 identity.2.1 identity.2.2

/-- The stored record is at least so far. -/
def Repository.Reaches (r : Repository) (id : String) (place : ℕ ×ₗ ℤ ×ₗ ℕ) : Prop :=
  ∃ stored, r.records.lookup id = some stored ∧ place ≤ stored.position

/-- The stored record is not so far. -/
def Repository.Precedes (r : Repository) (id : String) (place : ℕ ×ₗ ℤ ×ₗ ℕ) : Prop :=
  ∃ stored, r.records.lookup id = some stored ∧ stored.position < place

variable {engines : UInt64 → Engine} {engine : Engine} {id : String} {history : List SagaEvent}
  {s : SagaState} {fence : UInt64} {owner : Owner}

theorem identities_snoc (e : SagaEvent) :
    identities (history ++ [e]) = identities history ++ e.output.identity.toList := by
  cases h : e.output.identity <;> simp [identities, h]

/-! ## A step of an owner -/

/-- The call that an owner is about to make. -/
def Control.call : Control → Option (Record × Phase)
  | .invoking record phase => some (record, phase)
  | _ => none

/-- The call that an owner makes now or next. -/
def Control.attempt : Control → Option (Record × Phase)
  | .invoking record phase | .handling record phase => some (record, phase)
  | _ => none

variable {attempt : Record × Phase} {phase : Phase} {record : Record} {e : SagaEvent}

variable {control : Control} {r : Repository} {s' : SagaState}

theorem Repository.Reaches.lt {reached new : ℕ ×ₗ ℤ ×ₗ ℕ} (h : r.Reaches id reached)
    (hnew : r.Precedes id new) : reached < new := by
  obtain ⟨stored, hstored, hle⟩ := h
  obtain ⟨other, hother, hlt⟩ := hnew
  obtain rfl := Option.mem_unique hstored hother
  exact hle.trans_lt hlt

theorem Control.attempt_of_call (h : control.call = some attempt) :
    control.attempt = some attempt := by
  cases control <;> first | exact h | cases h

theorem Control.attempt_of_handling
    (h : control = .handling record phase) : control.attempt = some (record, phase) := by
  rw [h]
  rfl

@[simp] theorem loaded_attempt (result : Except Error Record) :
    (owner.loaded engine result).control.attempt = none := by
  unfold Owner.loaded
  split
  · rfl
  · split <;> rfl

@[simp] theorem turn_attempt (record : Record) (cause : Option String) :
    (owner.turn engine record cause).control.attempt = none := by
  have hgoes : (owner.turn engine record cause).control.GoesOn [] record :=
    turn_goesOn engine owner record cause
  cases hcontrol : (owner.turn engine record cause).control <;> rw [hcontrol] at hgoes <;>
    first
    | rfl
    | exact hgoes.elim

@[simp] theorem handled_attempt (record : Record) (phase : Phase) (err cause : Option String)
    (reason : String) :
    (owner.handled engine record phase err cause reason).control.attempt = none := by
  cases phase <;> cases err <;> cases cause <;> rfl

/-- An owner is about to call a handler after it has saved an attempt that is further than the
stored record. -/
theorem save_call {after : AfterSave}
    (h : Tracks id history r fence (.saving record after)) (now : Time) (failure : Option String)
    (hcall : (owner.saved (r.save { record with updatedAt := now } record.revision fence failure).1
      after).control.call = some attempt) :
    r.Precedes id attempt.1.position := by
  obtain ⟨hid, base, stored, hstored, hseen, hrevision, hadvances⟩ := h
  rcases r.save_cases { record with updatedAt := now } record.revision fence failure with
    ⟨err, heq⟩ | ⟨current, hcurrent, hfence, hexpected, hlt, heq⟩
  · rw [heq] at hcall
    cases after <;> cases hcall
  · rw [heq] at hcall
    rw [hid] at hcurrent
    obtain rfl : current = stored := Option.mem_unique hcurrent hstored
    obtain rfl : base = current := hseen.eq (hrevision.symm.trans hexpected.symm)
    cases after with
    | again | next | compensationFailed => cases hcall
    | invoke =>
      cases hcall
      exact ⟨base, hstored, hadvances.position_lt⟩

/-- **Calls and new attempts.** An owner calls the handler that it is about to call, or it calls
none; then it is about to call the same one as before, or a new attempt. -/
theorem exec_calls (h : Tracks id history r fence owner.control) (engine : Engine) (op : OwnerOp) :
    (∃ record phase, owner.control = .invoking record phase ∧ owner.exec engine id fence r op =
      (.invoked (engine.invocation record phase fence), r,
        { owner with control := .handling record phase })) ∨
    (owner.exec engine id fence r op).1.identity = none ∧
      ∀ attempt, (owner.exec engine id fence r op).2.2.control.call = some attempt →
        owner.control.call = some attempt ∨ r.Precedes id attempt.1.position := by
  unfold Owner.exec
  split
  next failure hcontrol =>
    split
    · exact .inr ⟨rfl, nofun⟩
    · exact .inr ⟨rfl, fun _ hcall => absurd (Control.attempt_of_call hcall) (by simp)⟩
  next now failure hcontrol =>
    exact .inr ⟨rfl, fun _ hcall => absurd (Control.attempt_of_call hcall) (by simp)⟩
  next record cause hcontrol =>
    exact .inr ⟨rfl, fun _ hcall => absurd (Control.attempt_of_call hcall) (by simp)⟩
  next record after now failure hcontrol =>
    rw [hcontrol] at h
    exact .inr ⟨rfl, fun attempt hcall => .inr (save_call h now failure hcall)⟩
  next record phase hcontrol => exact .inl ⟨record, phase, hcontrol, rfl⟩
  next record phase result expired cause reason hcontrol =>
    exact .inr ⟨rfl, fun _ hcall => absurd (Control.attempt_of_call hcall) (by simp)⟩
  next => exact .inr ⟨rfl, fun _ hcall => .inl hcall⟩

/-- A `Save` is under a fence that is not below the stored one, and that is the stored one then. -/
theorem SavedUnder.fence_le {saved : Record} (h : SavedUnder e fence saved)
    (hinv : TrackInv id history e.pre) :
    e.pre.repository.fence id ≤ fence ∧ e.post.repository.fence id = fence ∧
      ∃ stored, e.post.repository.records.lookup id = some stored := by
  obtain ⟨owner, record, after, now, failure, howner, hcontrol, -, hsave⟩ := h
  have htracks := hinv.owner fence owner howner
  rw [hcontrol] at htracks
  obtain ⟨hid, -⟩ := htracks
  rcases e.pre.repository.save_cases { record with updatedAt := now } record.revision
    fence failure with
    ⟨err, heq⟩ | ⟨current, -, hfence, -, -, heq⟩
  · rw [heq] at hsave
    cases hsave
  · rw [heq] at hsave
    rw [← (Prod.mk.inj hsave).2]
    exact ⟨hid ▸ hfence, Repository.put_fence hid, _, Repository.lookup_put hid⟩

/-! ## Over a run -/

/-- The attempts that were called or are about to be, against the stored record. -/
structure AttemptInv (id : String) (history : List SagaEvent) (s : SagaState) : Prop
    extends TrackInv id history s where
  past : ∀ identity ∈ identities history, s.repository.Reaches id (place identity)
  fresh : ∀ fence owner attempt, s.owners fence = some owner → owner.control.call = some attempt →
    ∀ identity ∈ identities history, place identity ≠ attempt.1.position
  apart : ∀ fence fence' owner owner' attempt attempt', s.owners fence = some owner →
    s.owners fence' = some owner' → owner.control.call = some attempt →
    owner'.control.call = some attempt' → attempt.1.position = attempt'.1.position → fence = fence'
  nodup : (identities history).Nodup
  fences : ∀ e ∈ history, ∀ fence saved, SavedUnder e fence saved →
    fence ≤ s.repository.fence id ∧ ∃ stored, s.repository.records.lookup id = some stored

/-- Calls and new attempts, over the steps of all owners. -/
theorem TrackInv.calls (h : TrackInv id history s) (engine : Engine) (op : SagaOp) :
    (∃ fence owner record phase, s.owners fence = some owner ∧
      owner.control = .invoking record phase ∧
      s.exec engine id op = (.invoked (engine.invocation record phase fence),
        { s with owners := Function.update s.owners fence
                   (some { owner with control := .handling record phase }) })) ∨
    (s.exec engine id op).1.identity = none ∧
      ∀ fence owner attempt, (s.exec engine id op).2.owners fence = some owner →
        owner.control.call = some attempt →
        (∃ owner, s.owners fence = some owner ∧ owner.control.call = some attempt) ∨
        (∃ op', op = .step fence op') ∧ s.repository.Precedes id attempt.1.position := by
  have hmoves := @exec_moves engine id s op
  generalize s.exec engine id op = result at hmoves ⊢
  cases hmoves with
  | @idle _ reply s' hreply hrepository howners =>
    refine .inr ⟨by rcases hreply with rfl | rfl <;> rfl, fun fence owner attempt howner hcall =>
      .inl ?_⟩
    rcases howners fence owner howner with howner | rfl
    · exact ⟨owner, howner, hcall⟩
    · cases hcall
  | @steps fence owner howner op =>
    rcases exec_calls (h.owner fence owner howner) engine op with
      ⟨record, phase, hcontrol, heq⟩ | ⟨hreply, hcalls⟩
    · rw [heq]
      exact .inl ⟨fence, owner, record, phase, howner, hcontrol, rfl⟩
    · refine .inr ⟨hreply, fun other owner' attempt hother hcall => ?_⟩
      dsimp only at hother
      by_cases heq : other = fence
      · subst heq
        rw [Function.update_self] at hother
        rw [← Option.some.inj hother] at hcall
        rcases hcalls attempt hcall with hcall | hnew
        · exact .inl ⟨owner, howner, hcall⟩
        · exact .inr ⟨⟨op, rfl⟩, hnew⟩
      · rw [Function.update_of_ne heq] at hother
        exact .inl ⟨owner', hother, hcall⟩

/-- What is about to be called was the stored record. -/
theorem TrackInv.call_le (h : TrackInv id history s) (howner : s.owners fence = some owner)
    (hcall : owner.control.call = some attempt) :
    attempt.2.At attempt.1 ∧ s.repository.Reaches id attempt.1.position := by
  have htracks := h.owner fence owner howner
  cases hcontrol : owner.control with
  | invoking record phase =>
    rw [hcontrol] at hcall htracks
    cases hcall
    obtain ⟨-, hat, ⟨stored, hstored, hseen⟩, -⟩ := htracks
    exact ⟨hat, stored, hstored, hseen.position⟩
  | loading | creating | loop | saving | handling | returned =>
    rw [hcontrol] at hcall
    cases hcall

section

variable (h : AttemptInv id history s) (htrack : TrackInv id (history ++ [e]) s')
  (hfences : ∀ d ∈ history ++ [e], ∀ fence saved, SavedUnder d fence saved →
    fence ≤ s'.repository.fence id ∧ ∃ stored, s'.repository.records.lookup id = some stored)

include h htrack hfences

/-- An owner calls its handler: the attempt was not called before, and nobody else is about to call
it. -/
theorem AttemptInv.called (howner : s.owners fence = some owner)
    (hcontrol : owner.control = .invoking record phase)
    (he : e.output = .invoked (engine.invocation record phase fence))
    (hs' : s' = { s with
      owners := Function.update s.owners fence
        (some { owner with control := .handling record phase }) }) :
    AttemptInv id (history ++ [e]) s' := by
  have hcall : owner.control.call = some (record, phase) := by rw [hcontrol]; rfl
  obtain ⟨hat, hle⟩ := h.toTrackInv.call_le howner hcall
  have hplace : place (engine.invocation record phase fence).identity = record.position :=
    hat.position.symm
  have hidentities : identities (history ++ [e]) =
      identities history ++ [(engine.invocation record phase fence).identity] := by
    rw [identities_snoc, he]
    rfl
  subst hs'
  -- the other owners are where they were
  have hother {other : UInt64} {owner' : Owner} {attempt : Record × Phase}
      (howner' : Function.update s.owners fence
        (some { owner with control := .handling record phase }) other = some owner')
      (hcall' : owner'.control.call = some attempt) :
      other ≠ fence ∧ s.owners other = some owner' := by
    by_cases heq : other = fence
    · rw [heq, Function.update_self] at howner'
      rw [← Option.some.inj howner'] at hcall'
      cases hcall'
    · rw [Function.update_of_ne heq] at howner'
      exact ⟨heq, howner'⟩
  refine { htrack with past := ?_, fresh := ?_, apart := ?_, nodup := ?_, fences := hfences }
  · rw [hidentities, forall_mem_snoc, hplace]
    exact ⟨h.past, hle⟩
  · intro other owner' attempt howner' hcall'
    obtain ⟨hne, howner'⟩ := hother howner' hcall'
    rw [hidentities, forall_mem_snoc, hplace]
    refine ⟨h.fresh other owner' attempt howner' hcall', fun heq => hne ?_⟩
    exact h.apart _ _ _ _ _ _ howner' howner hcall' hcall heq.symm
  · intro f f' o o' attempt attempt' ho ho' hc hc'
    exact h.apart f f' o o' attempt attempt' (hother ho hc).2 (hother ho' hc').2 hc hc'
  · rw [hidentities, List.nodup_append_comm]
    exact List.nodup_cons.mpr ⟨fun hmem => h.fresh fence owner _ howner hcall _ hmem hplace,
      h.nodup⟩

/-- A step without a call. -/
theorem AttemptInv.silent {op : SagaOp} (he : e.output.identity = none)
    (hpast : ∀ place, s.repository.Reaches id place → s'.repository.Reaches id place)
    (hcalls : ∀ fence owner attempt, s'.owners fence = some owner →
      owner.control.call = some attempt →
        (∃ owner, s.owners fence = some owner ∧ owner.control.call = some attempt) ∨
        (∃ op', op = .step fence op') ∧ s.repository.Precedes id attempt.1.position) :
    AttemptInv id (history ++ [e]) s' := by
  have hidentities : identities (history ++ [e]) = identities history := by
    rw [identities_snoc, he, Option.toList_none, List.append_nil]
  refine { htrack with past := ?_, fresh := ?_, apart := ?_, nodup := ?_, fences := hfences } <;>
    try rw [hidentities]
  · exact fun identity hmem => hpast _ (h.past identity hmem)
  · intro fence owner attempt howner hcall identity hmem
    rcases hcalls fence owner attempt howner hcall with ⟨owner', howner', hcall'⟩ | ⟨-, hnew⟩
    · exact h.fresh fence owner' attempt howner' hcall' identity hmem
    · exact ((h.past identity hmem).lt hnew).ne
  · -- a new attempt is further than what the owners are about to call
    intro f f' o o' attempt attempt' ho ho' hc hc' heq
    rcases hcalls f o attempt ho hc with ⟨owner, howner, hcall⟩ | ⟨⟨op₁, hop⟩, hnew⟩ <;>
      rcases hcalls f' o' attempt' ho' hc' with ⟨owner', howner', hcall'⟩ | ⟨⟨op₂, hop'⟩, hnew'⟩
    · exact h.apart f f' owner owner' attempt attempt' howner howner' hcall hcall' heq
    · exact absurd heq ((h.toTrackInv.call_le howner hcall).2.lt hnew').ne
    · exact absurd heq.symm ((h.toTrackInv.call_le howner' hcall').2.lt hnew).ne
    · rw [hop] at hop'
      cases hop'
      rfl
  · exact h.nodup

end

theorem AttemptInv.step (h : AttemptInv id history s) (engine : Engine) (op : SagaOp) :
    AttemptInv id (history ++ [⟨s, op, (s.exec engine id op).1, (s.exec engine id op).2⟩])
      (s.exec engine id op).2 := by
  obtain ⟨⟨writer, hstores⟩, htrack⟩ := h.toTrackInv.step engine op
  have hfences : ∀ d ∈ history ++ [⟨s, op, (s.exec engine id op).1, (s.exec engine id op).2⟩],
      ∀ fence saved, SavedUnder d fence saved →
        fence ≤ (s.exec engine id op).2.repository.fence id ∧
          ∃ stored, (s.exec engine id op).2.repository.records.lookup id = some stored := by
    refine forall_mem_snoc.mpr ⟨fun d hd fence saved hsaved => ?_, fun fence saved hsaved => ?_⟩
    · obtain ⟨hle, stored, hstored⟩ := h.fences d hd fence saved hsaved
      obtain ⟨saved, hlookup, -⟩ := hstores.replaces hstored
      exact ⟨UInt64.le_trans hle (hstores.fence_le hstored), saved, hlookup⟩
    · obtain ⟨-, heq, hstored⟩ := hsaved.fence_le h.toTrackInv
      exact ⟨UInt64.le_of_eq heq.symm, hstored⟩
  rcases h.toTrackInv.calls engine op with
    ⟨fence, owner, record, phase, howner, hcontrol, hexec⟩ | ⟨hsilent, hcalls⟩
  · exact h.called htrack hfences howner hcontrol (congrArg Prod.fst hexec)
      (congrArg Prod.snd hexec)
  · refine h.silent htrack hfences hsilent (fun position ⟨stored, hstored, hle⟩ => ?_) hcalls
    obtain ⟨saved, hsaved, rfl | hnew⟩ := hstores.replaces hstored
    · exact ⟨_, hsaved, hle⟩
    · exact ⟨_, hsaved, hle.trans hnew.position⟩

theorem attemptInv_of_run (h : (enginesMachine engines id).Run history s) :
    AttemptInv id history s := by
  refine Machine.Run.invariant (M := enginesMachine engines id) ?_
    (fun history s op hinv _ => hinv.step (engineOf engines op) op) h
  intro s hs
  have hrun : (enginesMachine engines id).Run [] s := .init hs
  refine { trackInv_of_run hrun with
    past := ?_, fresh := ?_, apart := ?_, nodup := List.nodup_nil, fences := ?_ }
  · exact fun identity hmem => (List.not_mem_nil hmem).elim
  · exact fun _ _ _ _ _ identity hmem => (List.not_mem_nil hmem).elim
  · subst hs
    exact fun _ _ _ _ _ _ howner => by cases howner
  · exact fun e he => (List.not_mem_nil he).elim

/-- **The attempts of an instance.** No two calls have their identity in common; a call is of an
attempt that its owner has saved; and once an owner has saved, none with a smaller fence does. -/
theorem attempts_unique (h : (enginesMachine engines id).Run history s) :
    (identities history).Nodup ∧
    (∀ before e after invocation, history = before ++ e :: after → e.output = .invoked invocation →
      ∃ d ∈ before, ∃ record, SavedUnder d invocation.fence record ∧ invocation.phase.At record ∧
        record.stepIndex invocation.phase = invocation.stepIndex ∧
          record.attempt = invocation.attempt) ∧
    ∀ before e after, history = before ++ e :: after → ∀ d ∈ before, ∀ fence fence' record record',
      SavedUnder d fence record → SavedUnder e fence' record' → fence ≤ fence' := by
  refine ⟨(attemptInv_of_run h).nodup, fun before e after invocation hsplit hinvoked => ?_,
    fun before e after hsplit d hd fence fence' record record' hfirst hsecond => ?_⟩
  · obtain ⟨hrun, -, he⟩ := h.split hsplit
    rw [he] at hinvoked
    obtain ⟨fence, owner, record, phase, howner, hcontrol, rfl⟩ := exec_invoked hinvoked
    have htracks := (trackInv_of_run hrun).owner fence owner howner
    rw [hcontrol] at htracks
    obtain ⟨-, hat, -, d, hd, hsaved⟩ := htracks
    exact ⟨d, hd, record, hsaved, hat, rfl, rfl⟩
  · obtain ⟨hrun, -, -⟩ := h.split hsplit
    have hinv := attemptInv_of_run hrun
    exact UInt64.le_trans (hinv.fences d hd fence record hfirst).1
      (hsecond.fence_le hinv.toTrackInv).1

namespace StaleOwner

/-- The attempts of an owner that is replaced, the last of them after those of the one that replaces
it. -/
theorem attempts_unique_inputs : identities (machine.trace start inputs) =
      [(.action, 0, 1), (.action, 1, 2), (.compensation, 0, 1), (.action, 1, 1)] ∧
    (identities (machine.trace start inputs)).Nodup := by
  have hrun := run_inputs
  rw [machine, ← enginesMachine_const] at hrun
  refine ⟨by decide +kernel, (attempts_unique hrun).1⟩

end StaleOwner

end Keelith.Saga

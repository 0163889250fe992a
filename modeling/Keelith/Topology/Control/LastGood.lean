import Keelith.Topology.Control.Controller

/-!
# The last good candidate

What a controller reports and what it asks of its target, over all runs.

- `Effect`: what a step can do. The invariants and the results below are read off it.
- `Inv`: the applied revision is at most the observed one, and it has the hash that was seen if the
  two are equal. A call that waits has observed its candidate; its candidate is the reported one
  from a successful `Ready` on, and its copy of the status is the current one before it.
- `Origin`: what is reported is the epoch and the hash of one candidate.

`last_good`: a candidate that fails leaves what is reported, and the target is made ready for later
epochs only. `apply_truthful_iff`: `Apply` returns nil for a candidate that is not the reported one
exactly if the last attempt at its revision failed before it was ready.
-/

namespace Keelith.Topology.Control

/-- The status reports the candidate as the applied one. -/
def Status.Reports (status : Status) (candidate : Candidate) : Prop :=
  status.appliedRevision = candidate.revision ∧ status.epoch = candidate.epoch ∧
    status.hash = candidate.hash

/-- Two statuses report the same applied candidate. -/
def Status.SameGood (status other : Status) : Prop :=
  status.appliedRevision = other.appliedRevision ∧ status.epoch = other.epoch ∧
    status.hash = other.hash

theorem Status.SameGood.refl (status : Status) : status.SameGood status := ⟨rfl, rfl, rfl⟩

/-- The candidate is ready while `Apply` waits for this call. -/
def Phase.applied : Phase → Bool
  | .stage | .ready => false
  | .drainable | .drain _ _ => true

/-- The candidate failed a check, `Stage` or `Ready`. -/
def ApplyError.unapplied : ApplyError → Bool
  | .errInvalidSignature _ | .errRevisionRollback | .errRevisionConflict | .errEpochRollback
  | .stage _ | .ready _ => true
  | .errInvalidController | .canceled _ | .planDrain _ | .drain _ _ => false

/-- A call that prepares a candidate. -/
def Call.prepares : Call → Bool
  | .stage _ | .ready _ => true
  | .drainable | .drain _ | .observe _ => false

/-- A successful return of `Ready`. -/
def ControllerOp.readies : ControllerOp → Bool
  | .readied (.ok _) => true
  | _ => false

/-- The status that the call of `Apply` which takes a step started from. -/
def Controller.started (c : Controller) : Status := (c.applying.map Applying.status).getD c.status

/-! ## What a step can do -/

/-- `Apply` of a ready candidate goes on draining, or ends. -/
inductive Drains (c : Controller) (call : Applying) : ControlReply × Controller → Prop
  | ends {calls : List Call} (hcalls : ∀ d ∈ calls, d.prepares = false) :
      Drains c call (⟨calls, some (call.candidate, .ok ())⟩, { c with applying := none })
  | waits {calls : List Call} {phase : Phase} (hcalls : ∀ d ∈ calls, d.prepares = false)
      (hphase : phase.applied = true) :
      Drains c call (⟨calls, none⟩, { c with applying := some { call with phase } })

/-- What a step can do. -/
inductive Effect (config : ControllerConfig) (c : Controller) :
    ControllerOp → ControlReply × Controller → Prop
  /-- Without the lock, or with a context that is done. -/
  | early {candidate : Candidate} {cause : Option String} {verified : Except VerifyError Unit}
      {err : ApplyError} (herr : err.unapplied = false) :
      Effect config c (.apply candidate cause verified) (⟨[], some (candidate, .error err)⟩, c)
  | duplicate {candidate : Candidate} {verified : Except VerifyError Unit}
      (hrevision : candidate.revision ≠ 0) (hhash : candidate.hash ≠ "")
      (hverify : config.verify verified = .ok ())
      (hobserved : candidate.revision = c.status.observedRevision)
      (hseen : candidate.hash = c.seenHash) :
      Effect config c (.apply candidate none verified) (⟨[], some (candidate, .ok ())⟩, c)
  | rejected {candidate : Candidate} {verified : Except VerifyError Unit}
      {failureClass : FailureClass}
      {err : ApplyError} (hidle : c.applying = none) :
      Effect config c (.apply candidate none verified) (c.reject candidate failureClass err)
  | observed {candidate : Candidate} {verified : Except VerifyError Unit}
      (hrevision : candidate.revision ≠ 0) (hverify : config.verify verified = .ok ())
      (hnew : c.status.observedRevision < candidate.revision)
      (hepoch : c.status.epoch < candidate.epoch) :
      Effect config c (.apply candidate none verified) (c.observe candidate)
  | failed {op : ControllerOp} {call : Applying} {failureClass : FailureClass} {err : ApplyError}
      (hop : op.readies = false) (hcall : c.applying = some call)
      (herr : err.unapplied = true → call.phase.applied = false) :
      Effect config c op (c.reject call.candidate failureClass err)
  | staged {call : Applying} (hcall : c.applying = some call)
      (hphase : call.phase.applied = false) :
      Effect config c (.staged (.ok ()))
        (⟨[.ready call.candidate.epoch], none⟩,
          { c with applying := some { call with phase := .ready } })
  | applied {call : Applying} {previous : UInt64} {r : ControlReply × Controller}
      (hcall : c.applying = some call) (hphase : call.phase.applied = false)
      (hdrains : Drains (c.publish call.candidate) call r) :
      Effect config c (.readied (.ok previous)) r
  | drains {op : ControllerOp} {call : Applying} {r : ControlReply × Controller}
      (hop : op.readies = false) (hcall : c.applying = some call)
      (hphase : call.phase.applied = true)
      (hdrains : Drains c call r) : Effect config c op r
  | source : Effect config c .sourceFailure c.sourceFailure

namespace Controller

variable {config : ControllerConfig} {c : Controller}

theorem drainNext_drains (call : Applying) {calls : List Call}
    (hcalls : ∀ d ∈ calls, d.prepares = false)
    (epochs : List UInt64) : Drains c call (c.drainNext call calls epochs) := by
  cases epochs with
  | nil => exact .ends hcalls
  | cons epoch rest => exact .waits (forall_mem_snoc.mpr ⟨hcalls, rfl⟩) rfl

theorem apply_effect {candidate : Candidate} {cause : Option String}
    {verified : Except VerifyError Unit}
    (hidle : candidate.revision ≠ 0 → candidate.hash ≠ "" → c.applying = none) :
    Effect config c (.apply candidate cause verified)
      (c.apply config candidate cause verified) := by
  unfold apply
  split
  · exact .early rfl
  next hvalid =>
    obtain ⟨hrevision, hhash⟩ := not_or.mp hvalid
    have hidle := hidle hrevision hhash
    split
    · exact .early rfl
    · exact .rejected hidle
    next hverify =>
      split
      · exact .rejected hidle
      next hle =>
        split
        next heq =>
          split
          next hseen => exact .duplicate hrevision hhash hverify heq hseen
          · exact .rejected hidle
        next hne =>
          split
          · exact .rejected hidle
          next hepoch =>
            have hnew : c.status.observedRevision < candidate.revision :=
              UInt64.lt_of_le_of_ne (UInt64.not_lt.mp hle) (Ne.symm hne)
            refine .observed hrevision hverify hnew ?_
            -- an activated epoch is positive, so the case of no applied epoch is no exception
            by_cases hzero : c.status.epoch = 0
            · rw [hzero]
              exact UInt64.pos_iff_ne_zero.mpr (Candidate.epoch_ne hrevision)
            · exact UInt64.not_le.mp fun hle => hepoch ⟨hzero, hle⟩

theorem readied_effect {call : Applying} (hcall : c.applying = some call)
    (hphase : call.phase.applied = false) (result : Except String UInt64) :
    Effect config c (.readied result) (c.readied config call result) := by
  cases result with
  | error err => exact .failed rfl hcall fun _ => hphase
  | ok previous =>
    refine .applied hcall hphase ?_
    dsimp only [readied]
    split
    · exact .waits (by simp [Call.prepares]) rfl
    · exact drainNext_drains call (by simp [Call.prepares]) _

/-- **What a step can do.** -/
theorem exec_effect {op : ControllerOp} (hmay : c.May config op) :
    Effect config c op (c.exec config op) := by
  cases op with
  | apply candidate cause verified => exact apply_effect hmay.1
  | staged result =>
    obtain ⟨candidate, status, hcall⟩ := hmay
    simp only [exec, hcall]
    cases result with
    | error err => exact .failed rfl hcall fun _ => rfl
    | ok => exact .staged hcall rfl
  | readied result =>
    obtain ⟨candidate, status, hcall⟩ := hmay
    simp only [exec, hcall]
    exact readied_effect hcall rfl result
  | planned result =>
    obtain ⟨candidate, status, hcall⟩ := hmay
    simp only [exec, hcall]
    cases result with
    | error err => exact .failed rfl hcall nofun
    | ok epochs =>
      exact .drains rfl hcall rfl (drainNext_drains _ (fun d hd => (List.not_mem_nil hd).elim) _)
  | drained result =>
    obtain ⟨candidate, status, epoch, rest, hcall⟩ := hmay
    simp only [exec, hcall]
    cases result with
    | error err => exact .failed rfl hcall nofun
    | ok => exact .drains rfl hcall rfl (drainNext_drains _ (fun d hd =>
        (List.not_mem_nil hd).elim) _)
  | sourceFailure => exact .source

end Controller

/-! ## The invariants -/

/-- A call that waits. -/
structure Controller.CallInv (c : Controller) (call : Applying) : Prop where
  revision : call.candidate.revision ≠ 0
  observed : c.status.observedRevision = call.candidate.revision
  seen : c.seenHash = call.candidate.hash
  before : call.phase.applied = false →
    c.status.SameGood call.status ∧ c.status.epoch < call.candidate.epoch
  after : call.phase.applied = true → c.status.Reports call.candidate

/-- The invariant of a controller. -/
structure Controller.Inv (c : Controller) : Prop where
  applied_le : c.status.appliedRevision ≤ c.status.observedRevision
  current : c.status.appliedRevision = c.status.observedRevision → c.status.hash = c.seenHash
  call : ∀ call, c.applying = some call → c.CallInv call

/-- What is reported, and what will be reported, comes from candidates whose plans are in a set. -/
structure Controller.Origin (S : Set (List UInt8)) (c : Controller) : Prop where
  applied : c.status.appliedRevision ≠ 0 → ∃ candidate : Candidate, candidate.revision ≠ 0 ∧
    candidate.plan.message ∈ S ∧ c.status.Reports candidate
  call : ∀ call, c.applying = some call → call.candidate.plan.message ∈ S

/-- The plan of the candidate of a call is in the set. -/
def PlanIn (S : Set (List UInt8)) (_ : Controller) : ControllerOp → Prop
  | .apply candidate _ _ => candidate.plan.message ∈ S
  | _ => True

variable {config : ControllerConfig} {c : Controller} {S : Set (List UInt8)} {op : ControllerOp}
  {call : Applying} {r : ControlReply × Controller}

theorem Controller.inv_init : Inv {} := ⟨UInt64.le_refl _, fun _ => rfl, nofun⟩

theorem Controller.origin_init (S : Set (List UInt8)) : Origin S {} :=
  ⟨fun h => absurd rfl h, nofun⟩

/-- While a reported candidate is drained, its revision is the applied and the observed one. -/
theorem Drains.inv (h : Drains c call r) (hrevision : call.candidate.revision ≠ 0)
    (hobserved : c.status.observedRevision = call.candidate.revision)
    (hseen : c.seenHash = call.candidate.hash) (hreports : c.status.Reports call.candidate) :
    r.2.Inv := by
  have hle : c.status.appliedRevision ≤ c.status.observedRevision :=
    UInt64.le_of_eq (hreports.1.trans hobserved.symm)
  have hcurrent : c.status.hash = c.seenHash := hreports.2.2.trans hseen.symm
  cases h with
  | ends => exact ⟨hle, fun _ => hcurrent, nofun⟩
  | waits _ hphase =>
    refine ⟨hle, fun _ => hcurrent, fun other hother => ?_⟩
    cases hother
    exact ⟨hrevision, hobserved, hseen, fun hfalse => absurd (hphase.symm.trans hfalse) (by decide),
      fun _ => hreports⟩

theorem Effect.inv (heffect : Effect config c op r) (h : c.Inv) : r.2.Inv := by
  cases heffect with
  | early | duplicate => exact h
  | rejected | failed => exact ⟨h.applied_le, h.current, nofun⟩
  | observed hrevision _ hnew hepoch =>
    have hlt := UInt64.lt_of_le_of_lt h.applied_le hnew
    refine ⟨UInt64.le_of_lt hlt, fun heq => absurd heq (UInt64.ne_of_lt hlt), fun call hcall => ?_⟩
    cases hcall
    exact ⟨hrevision, rfl, rfl, fun _ => ⟨.refl _, hepoch⟩, nofun⟩
  | staged hcall hphase =>
    have hinv := h.call _ hcall
    refine ⟨h.applied_le, h.current, fun call hsome => ?_⟩
    cases hsome
    exact ⟨hinv.revision, hinv.observed, hinv.seen, fun _ => hinv.before hphase,
      nofun⟩
  | applied hcall _ hdrains =>
    have hinv := h.call _ hcall
    exact hdrains.inv hinv.revision hinv.observed hinv.seen ⟨rfl, rfl, rfl⟩
  | drains _ hcall hphase hdrains =>
    have hinv := h.call _ hcall
    exact hdrains.inv hinv.revision hinv.observed hinv.seen (hinv.after hphase)
  | source =>
    -- `sourceFailure` may come between the sections of a call
    refine ⟨h.applied_le, h.current, fun call hcall => ?_⟩
    obtain ⟨hrevision, hobserved, hseen, hbefore, hafter⟩ := h.call call hcall
    exact ⟨hrevision, hobserved, hseen, hbefore, hafter⟩

theorem Drains.origin (h : Drains c call r) (happlied : c.status.appliedRevision ≠ 0 →
      ∃ candidate : Candidate, candidate.revision ≠ 0 ∧ candidate.plan.message ∈ S ∧
        c.status.Reports candidate)
    (hplan : call.candidate.plan.message ∈ S) : r.2.Origin S := by
  cases h with
  | ends => exact ⟨happlied, nofun⟩
  | waits =>
    refine ⟨happlied, fun other hother => ?_⟩
    cases hother
    exact hplan

theorem Effect.origin (heffect : Effect config c op r) (h : c.Origin S) (hinv : c.Inv)
    (hplan : PlanIn S c op) : r.2.Origin S := by
  cases heffect with
  | early | duplicate => exact h
  | rejected | failed => exact ⟨h.applied, nofun⟩
  | observed =>
    refine ⟨h.applied, fun call hcall => ?_⟩
    cases hcall
    exact hplan
  | staged hcall =>
    have hmessage := h.call _ hcall
    refine ⟨h.applied, fun call hsome => ?_⟩
    cases hsome
    exact hmessage
  | applied hcall _ hdrains =>
    have hmessage := h.call _ hcall
    exact hdrains.origin (fun _ => ⟨_, (hinv.call _ hcall).revision, hmessage, rfl, rfl, rfl⟩)
      hmessage
  | drains _ hcall _ hdrains => exact hdrains.origin h.applied (h.call _ hcall)
  | source => exact ⟨h.applied, h.call⟩

/-! ## The last good candidate is kept -/

/-- What holds of every event. -/
structure KeepsGood (config : ControllerConfig) (e : ControllerEvent) : Prop where
  observed : e.pre.status.observedRevision ≤ e.post.status.observedRevision
  applied : e.pre.status.appliedRevision ≤ e.post.status.appliedRevision
  epoch : e.pre.status.epoch ≤ e.post.status.epoch
  /-- A candidate that fails leaves what was reported when its call started. -/
  failed : ∀ candidate err, e.output.returned = some (candidate, .error err) →
    err.unapplied = true →
    e.post.status.SameGood e.pre.started
  /-- `Ready` is called for an epoch above the applied one. -/
  ready : ∀ epoch, .ready epoch ∈ e.output.calls → e.pre.status.epoch < epoch
  /-- A successful `Ready` advances the epoch. -/
  readied : e.input.readies = true → e.pre.status.epoch < e.post.status.epoch
  /-- What is staged is the candidate of a call, and a verifier has accepted it. -/
  staged : ∀ snapshot, .stage snapshot ∈ e.output.calls → ∃ candidate cause verified,
    e.input = .apply candidate cause verified ∧ candidate.snapshot = snapshot ∧
      ∀ verifier ∈ config.verifier, verifier candidate (.ok ())

/-- An event that prepares no candidate and leaves what is reported. -/
theorem KeepsGood.of_same {e : ControllerEvent}
    (hobserved : e.post.status.observedRevision = e.pre.status.observedRevision)
    (hsame : e.post.status.SameGood e.pre.status)
    (hcalls : ∀ d ∈ e.output.calls, d.prepares = false) (hop : e.input.readies = false)
    (hfailed : ∀ candidate err, e.output.returned = some (candidate, .error err) →
      err.unapplied = true → e.post.status.SameGood e.pre.started) : KeepsGood config e where
  observed := UInt64.le_of_eq hobserved.symm
  applied := UInt64.le_of_eq hsame.1.symm
  epoch := UInt64.le_of_eq hsame.2.1.symm
  failed := hfailed
  ready _ hmem := by cases hcalls _ hmem
  readied htrue := absurd (hop.symm.trans htrue) (by decide)
  staged _ hmem := by cases hcalls _ hmem

/-- A step of the drains prepares nothing, reports no failure and leaves the status. -/
theorem Drains.quiet (h : Drains c call r) : (∀ d ∈ r.1.calls, d.prepares = false) ∧
    (∀ candidate err, r.1.returned ≠ some (candidate, .error err)) ∧ r.2.status = c.status := by
  cases h with
  | ends hcalls | waits hcalls => exact ⟨hcalls, by simp, rfl⟩

variable {verified : Except VerifyError Unit}

/-- The verifier's answer counts if there is a verifier. -/
theorem verified_of_verify (h : config.verify verified = .ok ())
    {verifier : Verifier} (hverifier : verifier ∈ config.verifier) : verified = .ok () := by
  have hsigned : config.allowUnsigned = false := by
    rw [config.exclusive, Option.mem_def.mp hverifier]
    rfl
  rwa [ControllerConfig.verify, if_neg (by simp [hsigned])] at h

theorem Effect.keepsGood (heffect : Effect config c op r) (h : c.Inv) (hmay : c.May config op) :
    KeepsGood config ⟨c, op, r.1, r.2⟩ := by
  cases heffect with
  | early herr =>
    refine .of_same rfl (.refl _) (by simp) rfl fun _ err heq hfails => ?_
    cases heq
    exact absurd (herr.symm.trans hfails) (by decide)
  | duplicate => exact .of_same rfl (.refl _) (by simp) rfl (by simp)
  | rejected hidle =>
    refine .of_same rfl (.refl _) (by simp [Controller.reject, Call.prepares]) rfl fun _ _ _ _ => ?_
    rw [Controller.started, hidle]
    exact .refl _
  | failed hop hcall herr =>
    refine .of_same rfl (.refl _) (by simp [Controller.reject, Call.prepares]) hop
      fun _ err heq hfails => ?_
    cases heq
    rw [Controller.started, hcall]
    exact ((h.call _ hcall).before (herr hfails)).1
  | @observed candidate verified hrevision hverify hnew hepoch =>
    exact {
      observed := UInt64.le_of_lt hnew
      applied := UInt64.le_refl _
      epoch := UInt64.le_refl _
      failed := by simp [Controller.observe]
      ready := by simp [Controller.observe]
      readied := nofun
      staged := fun snapshot hmem => by
        obtain rfl : snapshot = candidate.snapshot := by simpa [Controller.observe] using hmem
        refine ⟨candidate, none, verified, rfl, rfl, fun verifier hverifier => ?_⟩
        have hok := verified_of_verify hverify hverifier
        exact hok ▸ hmay.2 verifier hverifier }
  | @staged call hcall hphase =>
    exact {
      observed := UInt64.le_refl _
      applied := UInt64.le_refl _
      epoch := UInt64.le_refl _
      failed := by simp
      ready := fun epoch hmem => by
        obtain rfl : epoch = call.candidate.epoch := by simpa using hmem
        exact ((h.call _ hcall).before hphase).2
      readied := nofun
      staged := by simp }
  | @applied call previous _ hcall hphase hdrains =>
    have hinv := h.call _ hcall
    have hlt := (hinv.before hphase).2
    obtain ⟨hcalls, hreturned, hstatus⟩ := hdrains.quiet
    have happlied : c.status.appliedRevision ≤ call.candidate.revision :=
      hinv.observed ▸ h.applied_le
    refine ⟨?_, ?_, ?_, fun candidate err heq => absurd heq (hreturned candidate err),
      fun _ hmem => (by cases hcalls _ hmem), fun _ => ?_, fun _ hmem => by cases hcalls _ hmem⟩ <;>
      dsimp only <;> rw [hstatus]
    · exact UInt64.le_refl _
    · exact happlied
    · exact UInt64.le_of_lt hlt
    · exact hlt
  | drains hop hcall _ hdrains =>
    obtain ⟨hcalls, hreturned, hstatus⟩ := hdrains.quiet
    refine .of_same (congrArg Status.observedRevision hstatus) (hstatus ▸ .refl _) hcalls hop
      fun candidate err heq => absurd heq (hreturned candidate err)
  | source =>
    refine .of_same rfl (.refl _) (fun d hd => ?_) rfl nofun
    rw [List.mem_singleton.mp hd]
    rfl

/-- **The last good candidate is kept.** The applied revision is at most the observed one; both and
the epoch only grow. A candidate that fails a check, `Stage` or `Ready` leaves what is reported.
`Ready` is called for epochs above the applied one, and `Stage` for what the verifier accepted. -/
theorem last_good {history : List ControllerEvent} (h : (controllerMachine config).Run history c) :
    c.status.appliedRevision ≤ c.status.observedRevision ∧ ∀ e ∈ history, KeepsGood config e := by
  have hinv {history c} (h : (controllerMachine config).Run history c) : c.Inv := by
    refine Machine.Run.invariant (M := controllerMachine config) (I := fun _ c => c.Inv) ?_ ?_ h
    · rintro c rfl
      exact Controller.inv_init
    · exact fun _ c op hinv hmay => (Controller.exec_effect hmay).inv hinv
  exact ⟨(hinv h).applied_le, h.events fun _ c op hrun hmay =>
    (Controller.exec_effect hmay).keepsGood (hinv hrun) hmay⟩

/-- A newer candidate is observed and staged. -/
theorem apply_newer {candidate : Candidate} (hnew : c.status.observedRevision < candidate.revision)
    (hepoch : ¬ (c.status.epoch ≠ 0 ∧ candidate.epoch ≤ c.status.epoch))
    (hverify : config.verify verified = .ok ()) :
    (controllerMachine config).exec c (.apply candidate none verified) = c.observe candidate := by
  have hne : candidate.revision ≠ 0 := fun h => UInt64.not_lt_zero (h ▸ hnew)
  have hvalid : ¬ (candidate.revision = 0 ∨ candidate.hash = "") :=
    not_or.mpr ⟨hne, Candidate.hash_ne hne⟩
  have hnotlt : ¬ candidate.revision < c.status.observedRevision := UInt64.lt_asymm hnew
  have hnoteq : candidate.revision ≠ c.status.observedRevision := (UInt64.ne_of_lt hnew).symm
  simp only [controllerMachine, Controller.exec, Controller.apply, if_neg hvalid, hverify,
    if_neg hnotlt, if_neg hnoteq, if_neg hepoch]

namespace FailedRollout

def plan (epoch : UInt64) : Plan := ⟨epoch, {"p"}, Finmap.singleton "c" "p", ∅, none⟩

/-- A candidate with this revision and epoch. -/
def candidate (revision epoch : UInt64) (h : validateSnapshot (clonePlan (plan epoch)) = .ok ()) :
    Candidate :=
  ⟨revision, plan epoch, _, [], fun _ => activate_of_valid h⟩

def first : Candidate := candidate 1 10 (by decide +kernel)

def second : Candidate := candidate 2 5 (by decide +kernel)

/-- A controller without a verifier, and a target that does not plan its drains. -/
def unsigned : ControllerConfig := ⟨none, true, false, rfl⟩

/-- A call with this candidate. -/
def present (candidate : Candidate) : ControllerOp := .apply candidate none (.ok ())

/-- The controller that has observed a candidate and waits for `Stage`. -/
def observing (c : Controller) (candidate : Candidate) : Controller := (c.observe candidate).2

theorem exec_present {candidate : Candidate}
    (hnew : c.status.observedRevision < candidate.revision) (hepoch : c.status.epoch = 0) :
    (controllerMachine unsigned).exec c (present candidate) = c.observe candidate :=
  apply_newer hnew (fun h => h.1 hepoch) rfl

theorem may_present (hidle : c.applying = none) (candidate : Candidate) :
    c.May unsigned (present candidate) :=
  ⟨fun _ _ => hidle, nofun⟩

/-- The epochs that `Ready` is called for. -/
def readyCalls (history : List ControllerEvent) : List UInt64 :=
  history.flatMap fun e => e.output.calls.filterMap fun
    | .ready epoch => some epoch
    | _ => none

/-- The controller that waits for `Ready` of a candidate. -/
def readying (c : Controller) (candidate : Candidate) : Controller :=
  { observing c candidate with applying := some ⟨candidate, c.status, .ready⟩ }

/-- The controller after `Ready` of the first candidate failed. -/
def unready : Controller := ((readying {} first).reject first .ready (.ready "refused")).2

theorem run_unready : ∃ history,
    (controllerMachine unsigned).Run history (readying unready second) ∧
      readyCalls history = [10, 5] := by
  have hinit : (controllerMachine unsigned).Run [] {} := .init rfl
  have hfirst := hinit.snoc (present first) (may_present rfl first) (exec_present (by decide) rfl)
  have hstaged := hfirst.snoc (.staged (.ok ())) ⟨first, {}, rfl⟩
    (show _ = (_, readying {} first) from rfl)
  have hunready := hstaged.snoc (.readied (.error "refused")) ⟨first, {}, rfl⟩
    (show _ = (_, unready) from rfl)
  have hsecond := hunready.snoc (present second) (may_present rfl second)
    (exec_present (by decide) rfl)
  have hlast := hsecond.snoc (.staged (.ok ())) ⟨second, unready.status, rfl⟩
    (show _ = (_, readying unready second) from rfl)
  exact ⟨_, hlast, rfl⟩

/-- `Ready` of epoch 10 fails, and the next candidate has epoch 5. -/
theorem ready_not_increasing : ∃ history c, (controllerMachine unsigned).Run history c ∧
    ¬ (readyCalls history).Pairwise (· < ·) := by
  obtain ⟨history, hrun, hcalls⟩ := run_unready
  refine ⟨history, _, hrun, ?_⟩
  rw [hcalls]
  decide

/-- In that run, too, the last good candidate is kept. -/
theorem last_good_unready : ∃ history c, (controllerMachine unsigned).Run history c ∧
    readyCalls history = [10, 5] ∧ c.status.appliedRevision ≤ c.status.observedRevision ∧
    ∀ e ∈ history, KeepsGood unsigned e := by
  obtain ⟨history, hrun, hcalls⟩ := run_unready
  exact ⟨history, _, hrun, hcalls, last_good hrun⟩

end FailedRollout

/-! ## What nil means -/

/-- If `Apply` returns nil, its candidate is the reported one. -/
def Truthful (e : ControllerEvent) : Prop :=
  ∀ candidate, e.output.returned = some (candidate, .ok ()) → e.post.status.Reports candidate

/-- A candidate is presented again, and the attempt at it was not applied. -/
def Swallowed (config : ControllerConfig) (c : Controller) : ControllerOp → Prop
  | .apply candidate cause verified =>
    candidate.revision ≠ 0 ∧ candidate.hash ≠ "" ∧ cause = none ∧ config.verify verified = .ok () ∧
      candidate.revision = c.status.observedRevision ∧ candidate.hash = c.seenHash ∧
      c.status.appliedRevision ≠ c.status.observedRevision
  | _ => False

theorem Drains.reports (h : Drains c call r) (hreports : c.status.Reports call.candidate)
    {candidate : Candidate} (hreturned : r.1.returned = some (candidate, .ok ())) :
    r.2.status.Reports candidate := by
  cases h with
  | ends =>
    cases hreturned
    exact hreports
  | waits => cases hreturned

theorem Effect.truthful (heffect : Effect config c op r) (hS : CollisionFree S) (h : c.Inv)
    (horigin : c.Origin S) (hplan : PlanIn S c op) (hnot : ¬ Swallowed config c op) :
    Truthful ⟨c, op, r.1, r.2⟩ := by
  intro candidate hreturned
  cases heffect with
  | early | rejected | failed | observed | staged | source => cases hreturned
  | duplicate hrevision hhash hverify hobserved hseen =>
    cases hreturned
    have happlied : c.status.appliedRevision = c.status.observedRevision := by
      by_contra hne
      exact hnot ⟨hrevision, hhash, rfl, hverify, hobserved, hseen, hne⟩
    have hstatus : c.status.hash = candidate.hash := (h.current happlied).trans hseen.symm
    -- the reported epoch is that of a candidate with the same hash
    obtain ⟨applied, hne, hmessage, -, hepoch, hsame⟩ :=
      horigin.applied (by rwa [happlied, ← hobserved])
    refine ⟨happlied.trans hobserved.symm, hepoch.trans ?_, hstatus⟩
    exact Candidate.epoch_eq_of_hash_eq hS hne hrevision hmessage hplan (hsame.symm.trans hstatus)
  | applied hcall _ hdrains => exact hdrains.reports ⟨rfl, rfl, rfl⟩ hreturned
  | drains _ hcall hphase hdrains => exact hdrains.reports ((h.call _ hcall).after hphase) hreturned

/-- A candidate that was observed is not looked at again. -/
theorem apply_again {candidate : Candidate} (hrevision : candidate.revision ≠ 0)
    (hhash : candidate.hash ≠ "") (hverify : config.verify verified = .ok ())
    (hobserved : candidate.revision = c.status.observedRevision)
    (hseen : candidate.hash = c.seenHash) :
    (controllerMachine config).exec c (.apply candidate none verified) =
      (⟨[], some (candidate, .ok ())⟩, c) := by
  have hvalid : ¬ (candidate.revision = 0 ∨ candidate.hash = "") := not_or.mpr ⟨hrevision, hhash⟩
  have hnotlt : ¬ candidate.revision < c.status.observedRevision := hobserved ▸ UInt64.lt_irrefl _
  simp only [controllerMachine, Controller.exec, Controller.apply, if_neg hvalid, hverify,
    if_neg hnotlt, if_pos hobserved, if_pos hseen]

/-- **What nil means.** `Apply` returns nil only for the candidate that the status reports, except
if the candidate was observed and its attempt was not applied. -/
theorem apply_truthful_iff (hS : CollisionFree S) {history : List ControllerEvent}
    (hrun : ((controllerMachine config).restrict (PlanIn S)).Run history c) (hmay : c.May config op)
    (hplan : PlanIn S c op) :
    Truthful ((controllerMachine config).event c op) ↔ ¬ Swallowed config c op := by
  have hinv : c.Inv ∧ c.Origin S := by
    refine Machine.Run.invariant (M := (controllerMachine config).restrict (PlanIn S))
      (I := fun _ c => c.Inv ∧ c.Origin S) ?_ ?_ hrun
    · rintro c rfl
      exact ⟨Controller.inv_init, Controller.origin_init S⟩
    · rintro history c op ⟨hinv, horigin⟩ ⟨hmay, hplan⟩
      have heffect := Controller.exec_effect hmay
      exact ⟨heffect.inv hinv, heffect.origin horigin hinv hplan⟩
  constructor
  · intro htruthful hswallowed
    cases op with
    | apply candidate cause verified =>
      obtain ⟨hrevision, hhash, rfl, hverify, hobserved, hseen, hne⟩ := hswallowed
      have hexec := apply_again hrevision hhash hverify hobserved hseen
      have hreports := htruthful candidate (by rw [Machine.event_output, hexec])
      rw [Machine.event_post, hexec] at hreports
      exact hne (hreports.1.trans hobserved)
    | staged | readied | planned | drained | sourceFailure => exact hswallowed
  · exact fun hnot => (Controller.exec_effect hmay).truthful hS hinv.1 hinv.2 hplan hnot

namespace FailedRollout

/-- The plan of the first candidate alone. -/
def plans : Set (List UInt8) := {first.plan.message}

theorem plans_collisionFree : CollisionFree plans := Set.injOn_singleton _ _

/-- The first candidate is observed. -/
theorem run_observing :
    ∃ history, ((controllerMachine unsigned).restrict (PlanIn plans)).Run history
      (observing {} first) := by
  have hinit : ((controllerMachine unsigned).restrict (PlanIn plans)).Run [] {} := .init rfl
  have hexec : (controllerMachine unsigned).exec {} (present first) = Controller.observe {} first :=
    exec_present (by decide) rfl
  exact hinit.next (present first) ⟨may_present rfl first, rfl⟩ (congrArg Prod.snd hexec)

/-- The target refuses the first candidate, and the second attempt at it returns nil. -/
theorem retry_swallowed : ∃ history c, (controllerMachine unsigned).Run history c ∧
    c.May unsigned (present first) ∧
    ((controllerMachine unsigned).event c (present first)).output.returned = some (first, .ok ()) ∧
    ((controllerMachine unsigned).event c (present first)).post.status.appliedRevision ≠
      first.revision := by
  let refused : Controller := ((observing {} first).reject first .stage (.stage "refused")).2
  obtain ⟨before, hobserving⟩ := run_observing
  obtain ⟨history, hrefused⟩ : ∃ history, (controllerMachine unsigned).Run history refused :=
    hobserving.of_restrict.next (.staged (.error "refused")) ⟨first, {}, rfl⟩ rfl
  have hexec : (controllerMachine unsigned).exec refused (present first) =
      (⟨[], some (first, .ok ())⟩, refused) :=
        apply_again (by decide) (Candidate.hash_ne (by decide)) rfl rfl rfl
  refine ⟨history, refused, hrefused, may_present rfl first, ?_, ?_⟩
  · rw [Machine.event_output, hexec]
  · rw [Machine.event_post, hexec]
    decide

/-- The controller after the first candidate was applied. -/
def applied : Controller := { (observing {} first).publish first with applying := none }

/-- After a success the candidate is presented again, and nil is true. -/
theorem retry_truthful :
    ((controllerMachine unsigned).event applied (present first)).post.status.Reports first := by
  have hrun : ∃ history,
      ((controllerMachine unsigned).restrict (PlanIn plans)).Run history applied := by
    obtain ⟨history, hobserving⟩ := run_observing
    obtain ⟨history, hstaged⟩ := hobserving.next (.staged (.ok ())) ⟨⟨first, {}, rfl⟩, trivial⟩ rfl
    exact hstaged.next (.readied (.ok 0)) ⟨⟨first, {}, rfl⟩, trivial⟩ rfl
  obtain ⟨history, hrun⟩ := hrun
  have hnot : ¬ Swallowed unsigned applied (present first) :=
    fun hswallowed => hswallowed.2.2.2.2.2.2 rfl
  refine (apply_truthful_iff plans_collisionFree hrun (may_present rfl first) rfl).mpr hnot first ?_
  have hexec : (controllerMachine unsigned).exec applied (present first) =
      (⟨[], some (first, .ok ())⟩, applied) :=
        apply_again (by decide) (Candidate.hash_ne (by decide)) rfl rfl rfl
  rw [Machine.event_output, hexec]

end FailedRollout

end Keelith.Topology.Control

import Keelith.Lib.Run
import Keelith.Lib.Threads

/-!
# The registration manager

`app/registration/registration.go` and `app/drain/drain.go`: a manager that registers its instance
in `Start` and deregisters it, once, in `Stop`.

- **Threads**: any number of calls of `Start` and `Stop`, and the goroutine `runStop` that the first
  `Stop` may start. A critical section is one step. The function of `stopOnce` is one step with its
  `close(stopDone)`: nobody waits for that channel before `Do` has returned.
- **The registrar** applies a call, or not, while the call runs, and answers later; it answers `nil`
  only if it has applied the call (`may`). So a call that fails may have been applied.
- **Contexts** may be done whenever the code looks at them.
- Times and the texts of diagnostics are left out.
-/

namespace Keelith.Registration

/-- The errors of both managers; the texts are those of the registrar. -/
inductive Error where
  /-- `context.Cause(ctx)`. -/
  | cause
  /-- `ErrAlreadyStarted`. -/
  | alreadyStarted
  | register (text : String)
  | deregister (text : String)
  deriving DecidableEq

/-! ## Drain -/

/-- The states of `drain.Manager`. -/
inductive DrainState where
  | ready
  | deregistering
  | propagating
  | drained
  | failed
  deriving DecidableEq

/-- `drain.Manager`. -/
structure Drain where
  state : DrainState
  err : Option Error
  done : Bool
  started : Bool
  deriving DecidableEq

/-- Where a call of `Drain` is. -/
inductive DrainPhase where
  | called
  /-- In `waitFor`. -/
  | waitFor
  /-- At the start of `run`. -/
  | running
  /-- In `Deregister`, which has been applied or not. -/
  | deregistering (applied : Bool)
  /-- `Deregister` has answered. -/
  | answered (err : Option String)
  | propagating
  /-- At `complete`. -/
  | completing (err : Option Error)
  | returned (err : Option Error)
  deriving DecidableEq

/-- A step of `Drain`, with the time that it waits for propagation. -/
def Drain.step (wait : Nat) (canceled : Bool) (d : Drain) : DrainPhase → Drain × DrainPhase
  | .called =>
    if d.started then (d, .waitFor)
    else ({ d with started := true, state := .deregistering }, .running)
  | .waitFor =>
    (d, if canceled then .returned (some .cause) else if d.done then .returned d.err else .waitFor)
  | .running => (d, if canceled then .completing (some .cause) else .deregistering false)
  | .answered (some text) => (d, .completing (some (.deregister text)))
  | .answered none =>
    if wait = 0 then (d, .completing none) else ({ d with state := .propagating }, .propagating)
  | .propagating => (d, .completing (if canceled then some .cause else none))
  | .completing err =>
    ({ d with err, state := if err = none then .drained else .failed, done := true }, .returned err)
  | phase => (d, phase)

/-! ## The manager -/

/-- The states of `registration.Manager`. -/
inductive State where
  | new
  | registering
  | registered
  | draining
  | stopped
  | failed
  deriving DecidableEq

/-- Where a call of `Start` is. -/
inductive StartPhase where
  | called
  /-- Its context was not done. -/
  | entering
  /-- In `Register`, which has been applied or not. -/
  | registering (applied : Bool)
  /-- `Register` has answered. -/
  | answered (err : Option String)
  | returned (err : Option Error)
  deriving DecidableEq

/-- Where a call of `Stop` is. -/
inductive StopPhase where
  | called
  /-- At `select`. -/
  | waiting
  /-- `stopDone` is closed. -/
  | reading
  | returned (err : Option Error)
  deriving DecidableEq

/-- Where `runStop` is. -/
inductive RunStop where
  | idle
  | draining (phase : DrainPhase)
  /-- At `close(stopDone)`. -/
  | closing
  | finished
  deriving DecidableEq

/-- The manager, its threads, and whether the registrar has the instance. -/
structure System where
  state : State
  err : Option Error
  stopOnce : Bool
  stopDone : Bool
  drain : Drain
  starts : List StartPhase
  stops : List StopPhase
  runStop : RunStop
  registered : Bool
  deriving DecidableEq

/-- What may happen next. -/
inductive Input where
  | start
  | startStep (call : Nat) (canceled : Bool)
  | applyRegister (call : Nat)
  | answerRegister (call : Nat) (err : Option String)
  | stop
  | stopStep (call : Nat) (canceled : Bool)
  | runStep (canceled : Bool)
  | applyDeregister
  | answerDeregister (err : Option String)
  deriving DecidableEq

namespace System

def new : System := ⟨.new, none, false, false, ⟨.ready, none, false, false⟩, [], [], .idle, false⟩

/-- A step of `Start` outside the registrar. -/
def startStep (s : System) (call : Nat) (canceled : Bool) : System :=
  let moved (s : System) (phase : StartPhase) : System :=
    { s with starts := s.starts.set call phase }
  match s.starts[call]? with
  | some .called => moved s (if canceled then .returned (some .cause) else .entering)
  | some .entering =>
    if s.state ≠ .new then moved s (.returned (some .alreadyStarted))
    else moved { s with state := .registering } (.registering false)
  | some (.answered (some text)) =>
    moved { s with state := .failed, err := some (.register text) }
      (.returned (some (.register text)))
  | some (.answered none) => moved { s with state := .registered } (.returned none)
  | _ => s

/-- The function of `stopOnce`. -/
def stopFirst (s : System) : System :=
  match s.state with
  | .new => { s with stopOnce := true, state := .stopped, stopDone := true }
  | .registered => { s with stopOnce := true, state := .draining, runStop := .draining .called }
  | _ => { s with stopOnce := true, stopDone := true }

/-- A step of `Stop`. -/
def stopStep (s : System) (call : Nat) (canceled : Bool) : System :=
  let moved (s : System) (phase : StopPhase) : System := { s with stops := s.stops.set call phase }
  match s.stops[call]? with
  | some .called => moved (if s.stopOnce then s else s.stopFirst) .waiting
  | some .waiting =>
    if canceled then moved s (.returned (some .cause))
    else if s.stopDone then moved s .reading else s
  | some .reading => moved s (.returned s.err)
  | _ => s

/-- A step of `runStop` outside the registrar. -/
def runStep (wait : Nat) (s : System) (canceled : Bool) : System :=
  match s.runStop with
  | .draining (.returned err) =>
    { s with err, state := if err = none then .stopped else .failed, runStop := .closing }
  | .draining phase =>
    { s with
      drain := (s.drain.step wait canceled phase).1
      runStop := .draining (s.drain.step wait canceled phase).2 }
  | .closing => { s with stopDone := true, runStop := .finished }
  | _ => s

/-- One input. -/
def exec (wait : Nat) (s : System) : Input → Unit × System
  | .start => ((), { s with starts := s.starts ++ [.called] })
  | .startStep call canceled => ((), s.startStep call canceled)
  | .applyRegister call => ((), match s.starts[call]? with
      | some (.registering _) =>
        { s with starts := s.starts.set call (.registering true), registered := true }
      | _ => s)
  | .answerRegister call err => ((), match s.starts[call]? with
      | some (.registering _) => { s with starts := s.starts.set call (.answered err) }
      | _ => s)
  | .stop => ((), { s with stops := s.stops ++ [.called] })
  | .stopStep call canceled => ((), s.stopStep call canceled)
  | .runStep canceled => ((), s.runStep wait canceled)
  | .applyDeregister => ((), match s.runStop with
      | .draining (.deregistering _) =>
        { s with runStop := .draining (.deregistering true), registered := false }
      | _ => s)
  | .answerDeregister err => ((), match s.runStop with
      | .draining (.deregistering _) => { s with runStop := .draining (.answered err) }
      | _ => s)

/-- The registrar answers `nil` only to a call that it has applied. -/
def answers (s : System) : Input → Prop
  | .answerRegister call none => s.starts[call]? = some (.registering true)
  | .answerDeregister none => s.runStop = .draining (.deregistering true)
  | _ => True

/-- The machine. -/
def machine (wait : Nat) : Machine System Input Unit where
  init s := s = .new
  exec := exec wait
  may _ s i := s.answers i

/-! ## The condition and the invariant -/

/-- The first `Stop` does not come while `Register` runs. -/
def prompt (s : System) : Input → Prop
  | .stopStep call _ => s.stops[call]? = some .called → s.stopOnce = false → s.state ≠ .registering
  | _ => True

end System

/-- `Start` has called `Register` and has not yet set the state. -/
def StartPhase.inFlight : StartPhase → Bool
  | .registering _ | .answered _ => true
  | _ => false

namespace System

/-- What `runStop` says about the state. -/
def RunOk (s : System) : Prop :=
  match s.runStop with
  | .idle => s.state ≠ .draining
  | .draining phase => s.state = .draining ∧
    match phase with
    | .called => s.drain.started = false
    | .waitFor => False
    | .running | .answered (some _) | .completing (some _) | .returned (some _) => True
    | .deregistering applied => applied = true → s.registered = false
    | .answered none | .propagating | .completing none | .returned none => s.registered = false
  | .closing | .finished => s.state = .stopped ∨ s.state = .failed

/-- The invariant. -/
structure Inv (s : System) : Prop where
  flight : ∀ (i : Nat) (p : StartPhase), s.starts[i]? = some p → p.inFlight = true →
    s.state = .registering
  alone : ∀ (i j : Nat) (p q : StartPhase), s.starts[i]? = some p → s.starts[j]? = some q →
    p.inFlight = true → q.inFlight = true → i = j
  new : s.state = .new → s.registered = false
  failed : s.state = .failed → s.err ≠ none
  stopped : s.state = .stopped → s.registered = false
  first : s.stopOnce = false → s.state ≠ .stopped ∧ s.runStop = .idle ∧ s.drain.started = false
  done : s.stopDone = true → s.state = .stopped ∨ s.state = .failed
  run : s.RunOk
  reading : .reading ∈ s.stops → s.state = .stopped ∨ s.state = .failed
  returned : .returned none ∈ s.stops → s.state = .stopped

variable {s : System} {wait : Nat}

/-! ### Start -/

theorem runOk_of_idle (hrun : s.runStop = .idle) (hstate : s.state ≠ .draining) : s.RunOk := by
  unfold RunOk
  rw [hrun]
  exact hstate

section

variable (h : Inv s)

include h

/-- Before `Register` has answered, no `Stop` has got further than its `select`. -/
theorem Inv.early (hs : s.state = .new ∨ s.state = .registering) :
    s.runStop = .idle ∧ s.stopDone = false ∧ .reading ∉ s.stops ∧ .returned none ∉ s.stops := by
  have hnever : ¬ (s.state = .stopped ∨ s.state = .failed) := by
    rcases hs with hs | hs <;> rw [hs] <;> decide
  refine ⟨?_, ?_, fun hm => hnever (h.reading hm), fun hm => hnever (.inl (h.returned hm))⟩
  · have hrun := h.run
    unfold RunOk at hrun
    cases hr : s.runStop with
    | idle => rfl
    | draining =>
      rw [hr] at hrun
      rcases hs with hs | hs <;> rw [hs] at hrun <;> cases hrun.1
    | closing | finished => rw [hr] at hrun; exact absurd hrun hnever
  · rw [← Bool.not_eq_true]
    exact fun hd => hnever (h.done hd)

variable {registered : Bool} {call : Nat} {phase : StartPhase}

/-- A call of `Start` changes the state. -/
theorem Inv.started (hs : s.state = .new ∨ s.state = .registering) {state : State}
    {err : Option Error} {starts : List StartPhase}
    (hstate : state = .registering ∨ state = .registered ∨ state = .failed ∧ err ≠ none)
    (hflight : ∀ (i : Nat) (p : StartPhase), starts[i]? = some p → p.inFlight = true →
      state = .registering)
    (halone : ∀ (i j : Nat) (p q : StartPhase), starts[i]? = some p → starts[j]? = some q →
      p.inFlight = true → q.inFlight = true → i = j) :
    Inv { s with state, err, starts, registered } := by
  obtain ⟨hidle, hdone, hreading, hreturned⟩ := h.early hs
  have hfirst := h.first
  have hothers : state ≠ .new ∧ state ≠ .stopped ∧ state ≠ .draining := by
    rcases hstate with rfl | rfl | ⟨rfl, -⟩ <;> decide
  refine ⟨hflight, halone, fun hn => absurd hn hothers.1, ?_, fun hn => absurd hn hothers.2.1,
    fun hf => ⟨hothers.2.1, (hfirst hf).2⟩, fun hd => ?_, runOk_of_idle hidle hothers.2.2,
    fun hm => absurd hm hreading, fun hm => absurd hm hreturned⟩
  · rintro rfl
    rcases hstate with hn | hn | ⟨-, he⟩
    · cases hn
    · cases hn
    · exact he
  · exact absurd (hdone ▸ hd) Bool.false_ne_true

/-- No call of `Start` comes to be in flight. -/
theorem Inv.setStarts {starts : List StartPhase}
    (hold : ∀ (i : Nat) (p : StartPhase), starts[i]? = some p → p.inFlight = true →
      s.starts[i]? = some p) : Inv { s with starts } :=
  { h with
    flight := fun i p hp hf => h.flight i p (hold i p hp hf) hf
    alone := fun i j p q hp hq hfp hfq => h.alone i j p q (hold i p hp hfp)
      (hold j q hq hfq) hfp hfq }

theorem Inv.setStart (hphase : phase.inFlight = false) :
    Inv { s with starts := s.starts.set call phase } := by
  refine h.setStarts fun i p hp hf => ?_
  rcases Threads.cases_set hp with ⟨-, rfl⟩ | ⟨-, hp⟩
  · exact absurd hf (by rw [hphase]; decide)
  · exact hp

theorem Inv.none_inFlight (hs : s.state ≠ .registering) (i : Nat) (p : StartPhase)
    (hp : s.starts[i]? = some p) : p.inFlight = false :=
  Bool.eq_false_iff.mpr fun hf => hs (h.flight i p hp hf)

/-- If one call is in flight, no other one is. -/
theorem Inv.others (hcall : s.starts[call]? = some phase)
    (hflight : phase.inFlight = true) (i : Nat) (p : StartPhase) (hi : i ≠ call)
    (hp : s.starts[i]? = some p) : p.inFlight = false := by
  rw [← Bool.not_eq_true]
  exact fun hf => hi (h.alone i call p phase hp hcall hf hflight)

/-- The call that is in flight, or would be the first one, moves. -/
theorem Inv.moveStart (hs : s.state = .new ∨ s.state = .registering) {state : State}
    {err : Option Error}
    (hothers : ∀ (i : Nat) (p : StartPhase), i ≠ call → s.starts[i]? = some p → p.inFlight = false)
    (hstate : state = .registering ∨ state = .registered ∨ state = .failed ∧ err ≠ none)
    (hphase : phase.inFlight = true → state = .registering) :
    Inv { s with state, err, starts := s.starts.set call phase, registered } := by
  have honly : ∀ (i : Nat) (p : StartPhase), (s.starts.set call phase)[i]? = some p →
      p.inFlight = true →
        i = call ∧ p = phase := by
    intro i p hp hf
    rcases Threads.cases_set hp with hself | ⟨hne, hp⟩
    · exact hself
    · exact absurd hf (by rw [hothers i p hne hp]; decide)
  refine h.started hs hstate ?_ ?_
  · intro i p hp hf
    obtain ⟨-, rfl⟩ := honly i p hp hf
    exact hphase hf
  · intro i j p q hp hq hfp hfq
    rw [(honly i p hp hfp).1, (honly j q hq hfq).1]

theorem Inv.startStep (call : Nat) (canceled : Bool) : Inv (s.startStep call canceled) := by
  unfold System.startStep
  cases hcall : s.starts[call]? with
  | none => exact h
  | some phase =>
    cases phase with
    | called =>
      dsimp only
      split <;> exact h.setStart rfl
    | entering =>
      dsimp only
      split
      next => exact h.setStart rfl
      next hnew =>
        have hnew : s.state = .new := not_not.mp hnew
        exact h.moveStart (.inl hnew) (fun i p _ => h.none_inFlight (by simp [hnew]) i p) (.inl rfl)
          (fun _ => rfl)
    | registering => exact h
    | answered err =>
      have hstate := h.flight call _ hcall rfl
      have hothers := h.others hcall rfl
      cases err with
      | none => exact h.moveStart (.inr hstate) hothers (.inr (.inl rfl)) nofun
      | some text => exact h.moveStart (.inr hstate) hothers (.inr (.inr ⟨rfl, by simp⟩)) nofun
    | returned => exact h

/-! ### Stop -/

/-- The phases of `Stop` change; no call has returned `nil` that the state does not account for. -/
theorem Inv.setStops {stops : List StopPhase}
    (hreading : .reading ∈ stops → s.state = .stopped ∨ s.state = .failed)
    (hreturned : .returned none ∈ stops → s.state = .stopped) : Inv { s with stops } :=
  { h with
    reading := hreading
    returned := hreturned }

theorem Inv.setStop {phase : StopPhase} (hreading : phase = .reading → s.state = .stopped ∨
    s.state = .failed) (hreturned : phase = .returned none → s.state = .stopped) :
    Inv { s with stops := s.stops.set call phase } := by
  refine h.setStops (fun hm => ?_) (fun hm => ?_)
  · rcases List.mem_or_eq_of_mem_set hm with hm | he
    · exact h.reading hm
    · exact hreading he.symm
  · rcases List.mem_or_eq_of_mem_set hm with hm | he
    · exact h.returned hm
    · exact hreturned he.symm

/-- The function of `stopOnce`, in a state in which `Register` does not run. -/
theorem Inv.stopFirst (hfirst : s.stopOnce = false) (hprompt : s.state ≠ .registering) :
    Inv s.stopFirst := by
  obtain ⟨hstopped, hidle, hstarted⟩ := h.first hfirst
  have hrun := h.run
  unfold RunOk at hrun
  rw [hidle] at hrun
  have hflight := h.none_inFlight hprompt
  unfold System.stopFirst
  cases hs : s.state with
  | new =>
    obtain ⟨-, -, hreading, hreturned⟩ := h.early (.inl hs)
    exact ⟨fun i p hp hf => absurd hf (by simp [hflight i p hp]), h.alone, nofun, nofun,
      fun _ => h.new hs, nofun, fun _ => .inl rfl, runOk_of_idle hidle nofun,
      fun hm => absurd hm hreading, fun _ => rfl⟩
  | registered =>
    have hnever : ¬ (s.state = .stopped ∨ s.state = .failed) := by rw [hs]; decide
    refine ⟨fun i p hp hf => absurd hf (by simp [hflight i p hp]), h.alone, nofun, nofun,
      nofun, nofun, fun hd => absurd (h.done hd) hnever, ⟨rfl, hstarted⟩,
      fun hm => absurd (h.reading hm) hnever, fun hm => absurd (.inl (h.returned hm)) hnever⟩
  | failed =>
    exact ⟨fun i p hp hf => absurd hf (by simp [hflight i p hp]), h.alone, nofun,
      fun _ => h.failed hs, nofun, nofun, fun _ => .inr rfl,
      runOk_of_idle hidle nofun, fun _ => .inr rfl,
      fun hm => hs.symm.trans (h.returned hm)⟩
  | registering => exact absurd hs hprompt
  | draining => exact absurd hs hrun
  | stopped => exact absurd hs hstopped

theorem Inv.stopStep {canceled : Bool} (hprompt : s.prompt (.stopStep call canceled)) :
    Inv (s.stopStep call canceled) := by
  unfold System.stopStep
  cases hcall : s.stops[call]? with
  | none => exact h
  | some phase =>
    cases phase with
    | called =>
      dsimp only
      split
      next => exact h.setStop (fun hn => by cases hn) nofun
      next hfirst =>
        have hfirst : s.stopOnce = false := by simpa using hfirst
        exact (h.stopFirst hfirst (hprompt hcall hfirst)).setStop (fun hn => by cases hn) nofun
    | waiting =>
      dsimp only
      split
      next => exact h.setStop (fun hn => by cases hn) nofun
      next =>
        split
        next hdone => exact h.setStop (fun _ => h.done hdone) nofun
        next => exact h
    | reading =>
      refine h.setStop (fun hn => by cases hn) (fun hn => ?_)
      rcases h.reading (List.mem_of_getElem? hcall) with hs | hs
      · exact hs
      · exact absurd (StopPhase.returned.inj hn) (h.failed hs)
    | returned => exact h

/-! ### The goroutine -/

theorem Inv.once (hrun : s.runStop ≠ .idle) : s.stopOnce ≠ false := fun hf => hrun (h.first hf).2.1

theorem Inv.draining {phase : DrainPhase} (hrun : s.runStop = .draining phase) :
    s.state = .draining := by
  have hok := h.run
  unfold RunOk at hok
  rw [hrun] at hok
  exact hok.1

/-- `runStop` moves while it drains. -/
theorem Inv.drained {before after : DrainPhase} (hrun : s.runStop = .draining before)
    {drain : Drain} (hafter : RunOk { s with drain, runStop := .draining after, registered }) :
    Inv { s with drain, runStop := .draining after, registered } := by
  have hdraining := h.draining hrun
  exact { h with
    new := fun hn => nomatch hdraining.symm.trans hn
    stopped := fun hn => nomatch hdraining.symm.trans hn
    first := fun hf => absurd hf (h.once (by simp [hrun]))
    run := hafter }

theorem Inv.runStep (canceled : Bool) : Inv (s.runStep wait canceled) := by
  have hrun := h.run
  unfold RunOk at hrun
  unfold System.runStep
  cases hr : s.runStop with
  | idle | finished => exact h
  | closing =>
    rw [hr] at hrun
    exact { h with
      first := fun hf => absurd hf (h.once (by simp [hr]))
      done := fun _ => hrun
      run := hrun }
  | draining phase =>
    rw [hr] at hrun
    obtain ⟨hdraining, hphase⟩ := hrun
    cases phase with
    | called =>
      have hstarted : s.drain.started = false := hphase
      refine h.drained hr ?_
      simp [RunOk, Drain.step, hstarted, hdraining]
    | waitFor => exact hphase.elim
    | running =>
      refine h.drained hr ?_
      cases canceled <;> simp [RunOk, Drain.step, hdraining]
    | deregistering applied => exact h.drained hr ⟨hdraining, hphase⟩
    | answered err =>
      refine h.drained hr ?_
      cases err with
      | some text => exact ⟨hdraining, trivial⟩
      | none =>
        have hregistered : s.registered = false := hphase
        by_cases hwait : wait = 0 <;> simp [RunOk, Drain.step, hwait, hdraining, hregistered]
    | propagating =>
      refine h.drained hr ?_
      have hregistered : s.registered = false := hphase
      cases canceled <;> simp [RunOk, Drain.step, hdraining, hregistered]
    | completing err =>
      refine h.drained hr ?_
      cases err with
      | some => exact ⟨hdraining, trivial⟩
      | none => exact ⟨hdraining, hphase⟩
    | returned err =>
      have hnever : ¬ (s.state = .stopped ∨ s.state = .failed) := by rw [hdraining]; decide
      have hflight := h.none_inFlight (by simp [hdraining])
      have hfirst := h.once (by simp [hr])
      cases err with
      | none | some =>
        exact ⟨fun i p hp hf => absurd hf (by simp [hflight i p hp]), h.alone,
          nofun, by simp, by simp_all,
          fun hf => absurd hf hfirst, fun hd => absurd (h.done hd) hnever, by simp [RunOk],
          fun hm => absurd (h.reading hm) hnever, fun hm => absurd (.inl (h.returned hm)) hnever⟩

/-! ## Nothing is left behind -/

theorem Inv.exec {i : Input} (hmay : s.answers i) (hprompt : s.prompt i) :
    Inv (System.exec wait s i).2 := by
  cases i with
  | start =>
    refine h.setStarts fun i p hp hf => ?_
    obtain hp | ⟨-, rfl⟩ := getElem?_snoc.mp hp
    · exact hp
    · cases hf
  | startStep call canceled => exact h.startStep call canceled
  | applyRegister call | answerRegister call =>
    simp only [System.exec]
    split
    next applied hcall =>
      exact h.moveStart (.inr (h.flight call _ hcall rfl)) (h.others hcall rfl)
        (.inl (h.flight call _ hcall rfl))
        (fun _ => h.flight call _ hcall rfl)
    next => exact h
  | stop =>
    refine h.setStops (fun hm => h.reading ?_) (fun hm => h.returned ?_) <;> simpa using hm
  | stopStep call canceled => exact h.stopStep hprompt
  | runStep canceled => exact h.runStep canceled
  | applyDeregister =>
    simp only [System.exec]
    split
    next applied hr => exact h.drained hr ⟨h.draining hr, fun _ => rfl⟩
    next => exact h
  | answerDeregister err =>
    simp only [System.exec]
    split
    next applied hr =>
      refine h.drained hr ⟨h.draining hr, ?_⟩
      cases err with
      | some => trivial
      | none =>
        have hok := h.run
        unfold RunOk at hok
        rw [show s.runStop = .draining (.deregistering true) from hmay] at hok
        exact hok.2 rfl
    next => exact h

end

theorem inv_new : Inv .new :=
  ⟨nofun, nofun, fun _ => rfl, nofun, fun _ => rfl, fun _ => ⟨by decide, rfl, rfl⟩, nofun, nofun,
    nofun, nofun⟩

/-- Every call has returned, and a `Stop` has returned `nil`. -/
def quiet (s : System) : Prop :=
  (∀ p ∈ s.starts, ∃ err, p = .returned err) ∧ (∀ p ∈ s.stops, ∃ err, p = .returned err) ∧
    .returned none ∈ s.stops

/-- If the first `Stop` never comes while `Register` runs, then the instance is not registered once
a `Stop` has returned `nil`. -/
theorem nothing_left {history : List (Event System Input Unit)}
    (hrun : ((machine wait).restrict prompt).Run history s) (hquiet : s.quiet) :
    s.registered = false := by
  have hinv : Inv s := by
    refine hrun.invariant (I := fun _ s => Inv s) ?_ ?_
    · rintro _ rfl
      exact inv_new
    · intro _ s i hinv hmay
      exact hinv.exec hmay.1 hmay.2
  exact hinv.stopped (hinv.returned hquiet.2.2)

end System

/-! ## One `Start` and one `Stop` -/

namespace OneStop

open Keelith.Registration.System

instance (s : System) (i : Input) : Decidable (s.answers i) := by
  unfold answers
  split <;> infer_instance

instance (s : System) (i : Input) : Decidable (s.prompt i) := by
  unfold prompt
  split <;> infer_instance

instance (wait : Nat) (history : List (Event System Input Unit)) (s : System) (i : Input) :
    Decidable ((machine wait).may history s i) :=
  inferInstanceAs (Decidable (s.answers i))

instance (wait : Nat) (history : List (Event System Input Unit)) (s : System) (i : Input) :
    Decidable (((machine wait).restrict prompt).may history s i) :=
  inferInstanceAs (Decidable (s.answers i ∧ s.prompt i))

def steps (count : Nat) (input : Input) : List Input := List.replicate count input

/-- `Register` succeeds, and then `Stop` deregisters and waits for propagation. -/
def promptInputs : List Input :=
  List.flatten [[.start], steps 2 (.startStep 0 false),
    [.applyRegister 0, .answerRegister 0 none, .startStep 0 false],
    [.stop, .stopStep 0 false], steps 2 (.runStep false),
      [.applyDeregister, .answerDeregister none],
    steps 5 (.runStep false), steps 2 (.stopStep 0 false)]

/-- `Stop` comes while `Register` runs, and returns; then `Register` succeeds. -/
def inputs : List Input :=
  List.flatten [[.start], steps 2 (.startStep 0 false), [.stop], steps 3 (.stopStep 0 false),
    [.applyRegister 0, .answerRegister 0 none, .startStep 0 false]]

theorem evaluated : (((machine 1).restrict prompt).Allows [] .new promptInputs ∧
      (((machine 1).restrict prompt).final .new promptInputs).starts = [.returned none] ∧
      (((machine 1).restrict prompt).final .new promptInputs).stops = [.returned none]) ∧
    (machine 1).Allows [] .new inputs ∧ ((machine 1).final .new inputs).starts = [.returned none] ∧
    ((machine 1).final .new inputs).stops = [.returned none] ∧
      ((machine 1).final .new inputs).registered = true := by
  decide +kernel

theorem quiet_of_returned {s : System} (hstarts : s.starts = [.returned none])
    (hstops : s.stops = [.returned none]) : s.quiet := by
  refine ⟨fun p hp => ?_, fun p hp => ?_, ?_⟩
  · rw [hstarts] at hp
    exact ⟨none, List.mem_singleton.mp hp⟩
  · rw [hstops] at hp
    exact ⟨none, List.mem_singleton.mp hp⟩
  · rw [hstops]
    exact List.mem_singleton.mpr rfl

/-- The instance is not registered after the first run. -/
theorem stopped_in_time : (((machine 1).restrict prompt).final .new promptInputs).quiet ∧
    (((machine 1).restrict prompt).final .new promptInputs).registered = false := by
  obtain ⟨⟨hallows, hstarts, hstops⟩, -⟩ := evaluated
  have hrun := Machine.Run.extend (M := (machine 1).restrict prompt) (.init rfl) hallows
  exact ⟨quiet_of_returned hstarts hstops, nothing_left hrun (quiet_of_returned hstarts hstops)⟩

/-- The instance is registered after the other run. -/
theorem stopped_too_early : ∃ (history : List (Event System Input Unit)) (s : System),
    (machine 1).Run history s ∧ s.quiet ∧ s.registered = true := by
  obtain ⟨-, hallows, hstarts, hstops, hregistered⟩ := evaluated
  have hrun := Machine.Run.extend (M := machine 1) (.init rfl) hallows
  exact ⟨_, _, hrun, quiet_of_returned hstarts hstops, hregistered⟩

end OneStop

end Keelith.Registration

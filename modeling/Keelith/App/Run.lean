import Mathlib.Data.List.Nodup
import Mathlib.Data.List.Range

/-!
# The lifecycle of an application

`app/run.go`: `Run` starts hooks and servers, waits, and stops what it has started.

- **The world** (`World`) decides everything that is not the code's own: what a call of a hook or
  server returns, whether the context is cancelled when the code looks (a caller that cancels, a
  deadline or `App.Stop`), and which server exits first. Each decision may depend on all that
  happened before. No call panics.
- **The trace** (`Event`) has each look at the context and each call with its result.
- The loops over hooks and servers are `pass` (`start`) and `stopPass` (`shutdown`), with the phase
  as a parameter.
- `health` is told of each state and is left out, as are the texts of errors.
-/

namespace Keelith.Lifecycle

/-- `State`. -/
inductive State where
  | new
  | starting
  | ready
  | draining
  | stopped
  | failed
  deriving DecidableEq

/-- What is called: three functions of a hook and one of a server to start, and to stop. -/
inductive Phase where
  | beforeStart
  | start
  | afterStart
  | beforeStop
  | stop
  | afterStop
  deriving DecidableEq

/-- A call of `shutdown`. -/
def Phase.stops : Phase → Bool
  | .beforeStop | .stop | .afterStop => true
  | _ => false

/-- `Hook`: which functions are there. -/
structure Hook where
  beforeStart : Bool
  afterStart : Bool
  beforeStop : Bool
  afterStop : Bool

/-- `App`: hooks, and the servers, which are a `Waiter` or not. -/
structure App where
  hooks : List Hook
  servers : List Bool
  state : State

/-- The hook or server has this function. -/
def App.has (app : App) (phase : Phase) (i : Nat) : Bool :=
  match phase with
  | .beforeStart => app.hooks[i]?.any Hook.beforeStart
  | .afterStart => app.hooks[i]?.any Hook.afterStart
  | .beforeStop => app.hooks[i]?.any Hook.beforeStop
  | .afterStop => app.hooks[i]?.any Hook.afterStop
  | .start | .stop => true

variable {E : Type}

/-- What happens in a run. -/
inductive Event (E : Type) where
  /-- `context.Cause` before the call. -/
  | check (phase : Phase) (i : Nat) (cause : Option E)
  | call (phase : Phase) (i : Nat) (err : Option E)

/-- An error of a run. -/
inductive Error (E : Type) where
  | alreadyRun
  /-- The cause of a cancelled context. -/
  | cause (err : E)
  | failed (phase : Phase) (i : Nat) (err : E)
  | serverExited (i : Nat)
  | runtimeFailure (i : Nat) (err : E)

/-- All that the code does not decide. -/
structure World (E : Type) where
  cause : List (Event E) → Option E
  outcome : List (Event E) → Phase → Nat → Option E
  /-- The waiter whose result is received, and its error; none if the context is done first. -/
  exit : List (Event E) → Option (Nat × Option E)
  /-- The cause of a context that is done. -/
  done : List (Event E) → E
  /-- `errors.Is`. -/
  is : E → E → Bool
  stopRequested : E
  canceled : E
  deadlineExceeded : E

variable (w : World E)

/-- `errors.Is` through the errors of `Run`. -/
def Error.is (err : Error E) (target : E) : Bool :=
  match err with
  | .cause inner | .failed _ _ inner | .runtimeFailure _ inner => w.is inner target
  | .alreadyRun | .serverExited _ => false

/-- What a pass did: how many are done, the error that ended it, and the trace. -/
structure Pass (E : Type) where
  count : Nat
  err : Option (Error E)
  trace : List (Event E)

/-- A loop of `start`. -/
def pass (phase : Phase) (has : Nat → Bool) : List Nat → List (Event E) → Pass E
  | [], trace => ⟨0, none, trace⟩
  | i :: rest, trace =>
    match w.cause trace with
    | some cause => ⟨0, some (.cause cause), trace ++ [.check phase i (some cause)]⟩
    | none =>
      let trace := trace ++ [.check phase i none]
      if has i then
        match w.outcome trace phase i with
        | some err =>
          let trace := trace ++ [.call phase i (some err)]
          ⟨0, some ((w.cause trace).elim (.failed phase i err) .cause), trace⟩
        | none =>
          let next := pass phase has rest (trace ++ [.call phase i none])
          { next with count := next.count + 1 }
      else
        let next := pass phase has rest trace
        { next with count := next.count + 1 }

/-- What `start` returns. -/
structure Start (E : Type) where
  started : Nat
  activeHooks : Nat
  err : Option (Error E)
  trace : List (Event E)

def start (app : App) : Start E :=
  let hooks := pass w .beforeStart (app.has .beforeStart) (List.range app.hooks.length) []
  if hooks.err.isSome then ⟨0, hooks.count, hooks.err, hooks.trace⟩ else
  let servers := pass w .start (app.has .start) (List.range app.servers.length) hooks.trace
  if servers.err.isSome then ⟨servers.count, hooks.count, servers.err, servers.trace⟩ else
  let after := pass w .afterStart (app.has .afterStart) (List.range hooks.count) servers.trace
  if after.err.isSome then ⟨servers.count, hooks.count, after.err, after.trace⟩ else
  ⟨servers.count, hooks.count, (w.cause after.trace).map .cause, after.trace⟩

/-- `wait`: the error that ends it. -/
def wait (app : App) (started : Nat) (trace : List (Event E)) : Error E :=
  match w.exit trace with
  | some (i, err) =>
    if i < started ∧ app.servers[i]? = some true then err.elim (.serverExited i) (.runtimeFailure i)
    else .cause (w.done trace)
  | none => .cause (w.done trace)

/-- A loop of `shutdown`: the errors and the trace. -/
def stopPass (phase : Phase) (has : Nat → Bool) :
    List Nat → List (Event E) → List (Error E) × List (Event E)
  | [], trace => ([], trace)
  | i :: rest, trace =>
    if has i then
      let outcome := w.outcome trace phase i
      let next := stopPass phase has rest (trace ++ [.call phase i outcome])
      (outcome.toList.map (.failed phase i) ++ next.1, next.2)
    else stopPass phase has rest trace

def shutdown (app : App) (started activeHooks : Nat) (trace : List (Event E)) :
    List (Error E) × List (Event E) :=
  let before := stopPass w .beforeStop (app.has .beforeStop) (List.range activeHooks).reverse trace
  let servers := stopPass w .stop (app.has .stop) (List.range started).reverse before.2
  let after := stopPass w .afterStop (app.has .afterStop) (List.range activeHooks).reverse servers.2
  (before.1 ++ servers.1 ++ after.1, after.2)

def terminalState (primary : Option (Error E)) (stopErrors : List (Error E))
    (trace : List (Event E)) : State :=
  if !stopErrors.isEmpty then .failed else
  match primary, w.cause trace with
  | none, _ => .stopped
  | some err, some cause =>
    if (w.is cause w.canceled || w.is cause w.deadlineExceeded) && err.is w cause then .stopped
    else .failed
  | some _, none => .failed

/-- How a run ends; the result is what `errors.Join` joins. -/
structure Outcome (E : Type) where
  result : List (Error E)
  state : State
  trace : List (Event E)

def run (app : App) : Outcome E :=
  if app.state ≠ .new then ⟨[.alreadyRun], app.state, []⟩ else
  let s := start w app
  let primary := match s.err with
    | some err => err
    | none => wait w app s.started s.trace
  let primary := if primary.is w w.stopRequested then none else some primary
  let stop := shutdown w app s.started s.activeHooks s.trace
  ⟨primary.toList ++ stop.1, terminalState w primary stop.1 stop.2, stop.2⟩

/-! ## What a run has done -/

/-- The server whose start this event says has succeeded. -/
def Event.started : Event E → Option Nat
  | .call .start i none => some i
  | _ => none

/-- The call of an event. -/
def Event.target : Event E → Option (Phase × Nat)
  | .call phase i _ => some (phase, i)
  | .check .. => none

/-- The phase of an event. -/
def Event.phase : Event E → Phase
  | .call phase .. | .check phase .. => phase

/-- The item was reached, and its call is absent or returned nil. -/
def Done (phase : Phase) (has : Nat → Bool) (trace : List (Event E)) (i : Nat) : Prop :=
  .check phase i none ∈ trace ∧ (has i = true → .call phase i none ∈ trace)

/-- A pass goes on with those after an item exactly when the item is done. -/
theorem done_cons (phase : Phase) (has : Nat → Bool) (i : Nat) (added : List (Event E)) (j : Nat) :
    Done phase has (.check phase i none :: (if has i then [.call phase i none] else []) ++
      added) j ↔ j = i ∨ Done phase has added j := by
  unfold Done
  by_cases hji : j = i
  · subst hji
    by_cases hj : has j = true <;> simp [hj]
  · by_cases hi : has i = true <;> simp [hji]

/-- What a pass adds to the trace. -/
theorem pass_spec (phase : Phase) (has : Nat → Bool) (items : List Nat) (trace : List (Event E)) :
    ∃ added, (pass w phase has items trace).trace = trace ++ added ∧
      (∀ event ∈ added, event.phase = phase) ∧
      (∀ i, Done phase has added i ↔ i ∈ items.take (pass w phase has items trace).count) ∧
      (phase = .start → (∀ i, has i = true) →
        added.filterMap Event.started = items.take (pass w phase has items trace).count) ∧
      ((pass w phase has items trace).count ≤ items.length) := by
  induction items generalizing trace with
  | nil => exact ⟨[], by simp [pass, Done]⟩
  | cons i rest ih =>
    unfold pass
    split
    next cause hcause => exact ⟨[.check phase i (some cause)], by
      simp [Event.phase, Done, Event.started]⟩
    next hcause =>
      dsimp only
      split
      next hi =>
        split
        next err herr =>
          refine ⟨[.check phase i none, .call phase i (some err)], by simp, by
            simp [Event.phase], fun j => ?_, by
            simp [Event.started], by simp⟩
          simp only [List.take_zero, List.not_mem_nil, iff_false]
          rintro ⟨hreached, hreturned⟩
          obtain rfl : j = i := by simpa using hreached
          simpa using hreturned hi
        next herr =>
          obtain ⟨added, htrace, hphase, hdone, hstarted, hcount⟩ :=
            ih (trace ++ [.check phase i none] ++ [.call phase i none])
          refine ⟨.check phase i none :: .call phase i none :: added, htrace.trans (by simp), ?_,
            fun j => ?_, fun hp hall => ?_, ?_⟩
          · simpa [Event.phase] using hphase
          · have hcons := done_cons phase has i added j
            rw [if_pos hi] at hcons
            simpa [hdone j] using hcons
          · subst hp
            exact congrArg (i :: ·) (hstarted rfl hall)
          · simpa using hcount
      next hi =>
        obtain ⟨added, htrace, hphase, hdone, hstarted, hcount⟩ :=
          ih (trace ++ [.check phase i none])
        refine ⟨.check phase i none :: added, by simp [htrace], ?_, fun j => ?_, fun _ hall =>
          absurd (hall i) hi, ?_⟩
        · simpa [Event.phase] using hphase
        · have hcons := done_cons phase has i added j
          rw [if_neg hi] at hcons
          simpa [hdone j] using hcons
        · simpa using hcount

/-- What a pass of `shutdown` adds to the trace. -/
theorem stopPass_spec (phase : Phase) (has : Nat → Bool) (items : List Nat)
    (trace : List (Event E)) : ∃ added, (stopPass w phase has items trace).2 = trace ++ added ∧
      added.map Event.target = ((items.filter has).map fun i => some (phase, i)) ∧
      ∀ p i err, .call p i (some err) ∈ added → .failed p i err ∈
        (stopPass w phase has items trace).1 := by
  induction items generalizing trace with
  | nil => exact ⟨[], by simp [stopPass]⟩
  | cons i rest ih =>
    unfold stopPass
    split
    next hi =>
      obtain ⟨added, htrace, htargets, herrors⟩ :=
        ih (trace ++ [.call phase i (w.outcome trace phase i)])
      refine ⟨.call phase i (w.outcome trace phase i) :: added, by simp [htrace], by
        simp [hi, htargets, Event.target], fun p j err hmem => ?_⟩
      rcases List.mem_cons.mp hmem with hhead | htail
      · obtain ⟨rfl, rfl, herr⟩ := Event.call.inj hhead
        simp [← herr]
      · exact List.mem_append_right _ (herrors p j err htail)
    next hi =>
      obtain ⟨added, htrace, htargets, herrors⟩ := ih trace
      exact ⟨added, htrace, by simp [hi, htargets], herrors⟩

variable {added : List (Event E)} {app : App} {trace : List (Event E)}

/-- Events of other phases do not count. -/
theorem done_append {phase other : Phase} (hne : other ≠ phase) (has : Nat → Bool)
    (trace : List (Event E)) (h : ∀ event ∈ added, event.phase = other) (i : Nat) :
    Done phase has (trace ++ added) i ↔ Done phase has trace i := by
  have hcheck : Event.check phase i none ∉ added := fun hmem => hne (h _ hmem).symm
  have hcall : Event.call phase i none ∉ added := fun hmem => hne (h _ hmem).symm
  simp [Done, hcheck, hcall]

theorem started_eq_nil {other : Phase} (hne : other ≠ .start)
    (h : ∀ event ∈ added, event.phase = other) : added.filterMap Event.started = [] := by
  rw [List.filterMap_eq_nil_iff]
  rintro (⟨phase, i, cause⟩ | ⟨phase, i, err⟩) hmem
  · rfl
  · obtain rfl : phase = other := h _ hmem
    cases phase <;> first | rfl | exact absurd rfl hne

/-- What a trace of `start` says: how many hooks are active and how many servers have started. -/
structure Started (app : App) (started activeHooks : Nat) (trace : List (Event E)) : Prop where
  early : ∀ event ∈ trace, event.phase.stops = false
  hooks : ∀ i, Done .beforeStart (app.has .beforeStart) trace i ↔ i < activeHooks
  servers : trace.filterMap Event.started = List.range started

theorem started_hooks (app : App) (items : Nat) :
    Started app 0 (pass w .beforeStart (app.has .beforeStart) (List.range items) []).count
      (pass w .beforeStart (app.has .beforeStart) (List.range items) []).trace := by
  obtain ⟨added, htrace, hphase, hdone, -, hcount⟩ :=
    pass_spec w .beforeStart (app.has .beforeStart) (List.range items) []
  rw [htrace, List.nil_append]
  refine ⟨fun event hmem => by rw [hphase event hmem]; rfl, fun i =>
    ?_, started_eq_nil (by decide) hphase⟩
  rw [hdone, List.take_range, List.mem_range, Nat.min_eq_left (by simpa using hcount)]

/-- A later pass keeps what the trace says of the hooks. -/
theorem Started.append {started started' activeHooks : Nat} {phase : Phase}
    (h : Started app started activeHooks trace) (hne : phase ≠ .beforeStart)
    (hstops : phase.stops = false) (hphase : ∀ event ∈ added, event.phase = phase)
    (hservers : List.range started ++ added.filterMap Event.started = List.range started') :
    Started app started' activeHooks (trace ++ added) where
  early event hmem := (List.mem_append.mp hmem).elim (h.early event) fun hadded => by
    rw [hphase event hadded, hstops]
  hooks i := (done_append hne _ trace hphase i).trans (h.hooks i)
  servers := by rw [List.filterMap_append, h.servers, hservers]

theorem Started.servers_pass {activeHooks : Nat} (h : Started app 0 activeHooks trace)
    (items : Nat) :
    Started app (pass w .start (app.has .start) (List.range items) trace).count activeHooks
      (pass w .start (app.has .start) (List.range items) trace).trace := by
  obtain ⟨added, htrace, hphase, -, hstarted, hcount⟩ :=
    pass_spec w .start (app.has .start) (List.range items) trace
  rw [htrace]
  refine h.append (by decide) rfl hphase ?_
  rw [hstarted rfl fun _ => rfl, List.take_range, Nat.min_eq_left (by simpa using hcount)]
  rfl

theorem Started.after_pass {started activeHooks : Nat} (h : Started app started activeHooks trace)
    (items : List Nat) :
    Started app started activeHooks
      (pass w .afterStart (app.has .afterStart) items trace).trace := by
  obtain ⟨added, htrace, hphase, -⟩ := pass_spec w .afterStart (app.has .afterStart) items trace
  rw [htrace]
  refine h.append (by decide) rfl hphase ?_
  rw [started_eq_nil (by decide) hphase, List.append_nil]

/-- `start` returns what its trace says, wherever it ends. -/
theorem start_spec (app : App) :
    Started app (start w app).started (start w app).activeHooks (start w app).trace := by
  have hhooks := started_hooks w app app.hooks.length
  have hservers := hhooks.servers_pass w app.servers.length
  have hafter := hservers.after_pass w
    (List.range (pass w .beforeStart (app.has .beforeStart) (List.range app.hooks.length) []).count)
  unfold start
  dsimp only
  split
  · exact hhooks
  split
  · exact hservers
  split <;> exact hafter

/-- The calls of `shutdown`, and that no error of one is lost. -/
theorem shutdown_spec (app : App) (started activeHooks : Nat) (trace : List (Event E)) :
    ∃ stops, (shutdown w app started activeHooks trace).2 = trace ++ stops ∧
      stops.map Event.target =
        (((List.range activeHooks).reverse.filter (app.has .beforeStop)).map fun i =>
          some (.beforeStop, i)) ++ ((List.range started).reverse.map fun i => some (.stop, i)) ++
        (((List.range activeHooks).reverse.filter (app.has .afterStop)).map fun i =>
          some (.afterStop, i)) ∧
      ∀ phase i err, .call phase i (some err) ∈ stops →
        .failed phase i err ∈ (shutdown w app started activeHooks trace).1 := by
  unfold shutdown
  dsimp only
  obtain ⟨before, htrace, htargets, herrors⟩ :=
    stopPass_spec w .beforeStop (app.has .beforeStop) (List.range activeHooks).reverse trace
  generalize stopPass w .beforeStop (app.has .beforeStop) (List.range activeHooks).reverse trace =
    first at *
  obtain ⟨servers, htrace', htargets', herrors'⟩ :=
    stopPass_spec w .stop (app.has .stop) (List.range started).reverse first.2
  generalize stopPass w .stop (app.has .stop) (List.range started).reverse first.2 = second at *
  obtain ⟨after, htrace'', htargets'', herrors''⟩ :=
    stopPass_spec w .afterStop (app.has .afterStop) (List.range activeHooks).reverse second.2
  refine ⟨before ++ servers ++ after, by
    rw [htrace'', htrace', htrace]; simp, ?_, fun phase i err hmem => ?_⟩
  · have hall : (List.range started).reverse.filter (app.has .stop) =
      (List.range started).reverse :=
      List.filter_eq_self.mpr fun _ _ => rfl
    rw [List.map_append, List.map_append, htargets, htargets', htargets'', hall]
  · rcases List.mem_append.mp hmem with hmem | hmem
    · rcases List.mem_append.mp hmem with hmem | hmem
      · exact List.mem_append_left _ (List.mem_append_left _ (herrors phase i err hmem))
      · exact List.mem_append_left _ (List.mem_append_right _ (herrors' phase i err hmem))
    · exact List.mem_append_right _ (herrors'' phase i err hmem)

/-- **The lifecycle is a bracket**: after all that `start` did come, and come nowhere else,
`BeforeStop` of the active hooks, `Stop` of the servers that have started and `AfterStop` of the
active hooks, each once and in reverse order; the hooks are those that were reached and whose
`BeforeStart` is absent or returned nil; and each error of these calls is in the result. A run that
is not the first makes no call. -/
theorem run_brackets (app : App) : ∃ before stops activeHooks,
    (run w app).trace = before ++ stops ∧ (∀ event ∈ before, event.phase.stops = false) ∧
      (∀ i, Done .beforeStart (app.has .beforeStart) before i ↔ i < activeHooks) ∧
      (before.filterMap Event.started).Nodup ∧
      stops.map Event.target =
        (((List.range activeHooks).reverse.filter (app.has .beforeStop)).map fun i =>
          some (.beforeStop, i)) ++
        ((before.filterMap Event.started).reverse.map fun i => some (.stop, i)) ++
        (((List.range activeHooks).reverse.filter (app.has .afterStop)).map fun i =>
          some (.afterStop, i)) ∧
      ∀ phase i err, .call phase i (some err) ∈ stops →
        .failed phase i err ∈ (run w app).result := by
  unfold run
  split
  · exact ⟨[], [], 0, by simp [Done]⟩
  · have hstart := start_spec w app
    obtain ⟨stops, htrace, htargets, herrors⟩ :=
      shutdown_spec w app (start w app).started (start w app).activeHooks (start w app).trace
    rw [← hstart.servers] at htargets
    refine ⟨(start w app).trace, stops, (start w app).activeHooks, htrace, hstart.early,
      hstart.hooks, ?_, htargets,
      fun phase i err hmem => List.mem_append_right _ (herrors phase i err hmem)⟩
    rw [hstart.servers]
    exact List.nodup_range

end Keelith.Lifecycle

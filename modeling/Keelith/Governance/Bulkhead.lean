import Keelith.Governance.Policy
import Keelith.Lib.Run
import Keelith.Lib.Threads
import Mathlib.Algebra.GroupWithZero.Nat

/-!
# The bulkhead

`governance/bulkhead/bulkhead.go`: slots for concurrent calls, and a queue of callers that wait for
one.

- **Calls**: any number of calls of `Acquire`, each with its own configuration; a critical section
  of `mu` is one step. The waiter of a call is part of it (`Call.waiter`), and `waiters` holds
  numbers of calls.
- **Races**: between its grant and its `select` a caller may see its channel, its context or its
  timer, in any order that the inputs give (`receive`, `cancel`).
- **For the proof** only: how often a call has got a slot and given it back (`granted`, `given`),
  the callers that were put in the queue (`arrivals`) and those that were granted a slot there
  (`grants`), in order.
- `queueHighWater` and the counters of `Describe` are left out: nothing reads them.
-/

namespace Keelith.Bulkhead

open MethodPolicy (Val)

/-- `policy.BulkheadPolicy`. -/
abbrev BulkheadPolicy := MethodPolicy.Bulkhead Val

def validate (config : BulkheadPolicy) : Bool :=
  !(config.maxConcurrency ≤ 0 || config.maxQueue < 0 || config.queueTimeout < 0 ||
    config.maxQueue > 0 && config.queueTimeout ≤ 0 || config.maxQueue == 0 &&
      config.queueTimeout > 0)

/-- `waiterState`. -/
inductive WaiterState where
  | queued
  | granted
  | canceled
  deriving DecidableEq

/-- Where a call is. -/
inductive Phase where
  /-- Before `mu.Lock`. -/
  | called
  /-- At `select`. -/
  | waiting
  /-- `ready` was chosen. -/
  | ready
  /-- Before `cancelGranted`. -/
  | canceling
  /-- It has returned a permit that is not released. -/
  | permit
  | released
  /-- It has returned an error, or a permit without a bulkhead. -/
  | ended
  deriving DecidableEq

/-- A call of `Acquire`, with its waiter. -/
structure Call where
  config : BulkheadPolicy
  phase : Phase
  waiter : WaiterState := .queued
  granted : Nat := 0
  given : Nat := 0

/-- `Bulkhead` and its calls. -/
structure System where
  maxConcurrency : Int
  maxQueue : Int
  inflight : Int
  waiters : List Nat
  calls : List Call
  arrivals : List Nat
  grants : List Nat

namespace System

/-- `NewBulkhead`. -/
def new : System := ⟨0, 0, 0, [], [], [], []⟩

/-- The waiter of the call is in the state `queued`. -/
def isQueued (s : System) (i : Nat) : Bool := s.calls[i]?.any fun c => c.waiter = .queued

/-- The waiter `w` gets a slot. -/
def grant (s : System) (w : Nat) (rest : List Nat) : System :=
  { s with
    waiters := rest
    calls := s.calls.modify w fun c => { c with waiter := .granted, granted := c.granted + 1 }
    inflight := s.inflight + 1
    grants := s.grants ++ [w] }

def grantNextLocked (s : System) : System :=
  if s.maxConcurrency ≤ 0 ∨ s.inflight ≥ s.maxConcurrency then s
  else match s.waiters.dropWhile fun w => !s.isQueued w with
    | [] => { s with waiters := [] }
    | w :: rest => s.grant w rest

/-- The loop of `Acquire`; every round takes a waiter from the queue. -/
def grantWaiters : Nat → System → System
  | 0, s => s
  | n + 1, s =>
    if s.inflight < s.maxConcurrency ∧ s.waiters ≠ [] then grantWaiters n s.grantNextLocked else s

/-- The critical section of `Acquire`. -/
def enter (s : System) (i : Nat) (c : Call) : System :=
  let s := { s with maxConcurrency := c.config.maxConcurrency, maxQueue := c.config.maxQueue }
  let s := grantWaiters s.waiters.length s
  if s.inflight < c.config.maxConcurrency ∧ s.waiters = [] then
    { s with
      inflight := s.inflight + 1
      calls := s.calls.set i { c with phase := .permit, granted := c.granted + 1 } }
  else if c.config.maxQueue = 0 ∨ s.waiters.length ≥ c.config.maxQueue then
    { s with calls := s.calls.set i { c with phase := .ended } }
  else
    { s with
      waiters := s.waiters ++ [i], arrivals := s.arrivals ++ [i]
      calls := s.calls.set i { c with phase := .waiting, waiter := .queued } }

/-- `release`; the call has the phase `phase` then. -/
def release (s : System) (i : Nat) (c : Call) (phase : Phase) (waiter : WaiterState) : System :=
  grantNextLocked
    { s with
      inflight := if s.inflight > 0 then s.inflight - 1 else s.inflight
      calls := s.calls.set i { c with phase, waiter, given := c.given + 1 } }

/-- `cancelGranted`, and the return of `Acquire`. -/
def cancelGranted (s : System) (i : Nat) (c : Call) : System :=
  match c.waiter with
  | .queued =>
    grantNextLocked
      { s with
        calls := s.calls.set i { c with phase := .ended, waiter := .canceled }
        waiters := s.waiters.erase i }
  | .granted => s.release i c .ended .canceled
  | .canceled => { s with calls := s.calls.set i { c with phase := .ended } }

end System

/-- What may happen next. -/
inductive Input where
  /-- `Acquire` is called, with a context that is done or not. -/
  | acquire (config : BulkheadPolicy) (canceled : Bool)
  | enter (call : Nat)
  /-- `ready` is closed and chosen. -/
  | receive (call : Nat)
  /-- The context is looked at after `ready`. -/
  | check (call : Nat) (canceled : Bool)
  /-- The context or the timer is chosen. -/
  | cancel (call : Nat)
  | cancelGranted (call : Nat)
  | release (call : Nat)

namespace System

/-- A step of a call that is in the given phase. -/
def atCall (s : System) (i : Nat) (phase : Phase) (f : Call → System) : System :=
  match s.calls[i]? with
  | some c => if c.phase = phase then f c else s
  | none => s

/-- One input. -/
def step (s : System) : Input → System
  | .acquire config canceled =>
    let rejected := canceled || !config.enabled || !validate config
    { s with calls := s.calls ++ [⟨config, if rejected then .ended else .called, .queued, 0, 0⟩] }
  | .enter i => s.atCall i .called fun c => s.enter i c
  | .receive i => s.atCall i .waiting fun c =>
    if c.waiter = .granted then { s with calls := s.calls.set i { c with phase := .ready } } else s
  | .check i canceled => s.atCall i .ready fun c =>
    { s with calls := s.calls.set i { c with phase := if canceled then .canceling else .permit } }
  | .cancel i => s.atCall i .waiting fun c =>
    { s with calls := s.calls.set i { c with phase := .canceling } }
  | .cancelGranted i => s.atCall i .canceling fun c => s.cancelGranted i c
  -- `once`: a permit that is released has another phase
  | .release i => s.atCall i .permit fun c => s.release i c .released c.waiter

end System

/-- The machine. -/
def machine : Machine System Input Unit where
  init s := s = .new
  exec s i := ((), s.step i)
  may _ _ _ := True

/-! ## Slots and the queue -/

/-- The call holds a slot: a permit, or a grant that `Acquire` has not returned. -/
@[simp] def Call.holds (c : Call) : Bool :=
  c.phase = .permit ∨
    (c.phase = .waiting ∨ c.phase = .ready ∨ c.phase = .canceling) ∧ c.waiter = .granted

/-- The call waits in the queue. -/
@[simp] def Call.waits (c : Call) : Bool :=
  (c.phase = .waiting ∨ c.phase = .canceling) ∧ c.waiter = .queued

/-- The slots that the call holds. -/
@[simp] def Call.slots (c : Call) : Nat := if c.holds then 1 else 0

/-- A call gets at most one slot, and holds it until it gives it back. -/
structure Call.Ok (c : Call) : Prop where
  once : c.granted ≤ 1
  balance : c.granted = c.given + c.slots
  fresh : c.phase = .called ∨ c.waits = true → c.granted = 0
  ready : c.phase = .ready → c.waiter = .granted
  waiter : c.phase = .waiting ∨ c.phase = .canceling → c.waiter ≠ .canceled
  valid : c.phase = .called → validate c.config = true

/-- A call that was put in the queue has got a slot there, still waits, or was canceled. -/
structure Call.Queued (c : Call) (granted : Prop) : Prop where
  entered : c.phase ≠ .called
  granted_iff : granted ↔ c.granted = 1
  left : c.granted = 1 ∨ c.waits = true ∨ c.waiter = .canceled

namespace System

variable {s t : System} {i : Nat} {c c' : Call}

/-- The invariant, but for the limit. -/
structure Base (s : System) : Prop where
  ok : ∀ c ∈ s.calls, c.Ok
  inflight : s.inflight = (s.calls.map Call.slots).sum
  queue : ∀ i, i ∈ s.waiters ↔ ∃ c, s.calls[i]? = some c ∧ c.waits = true
  order : (s.grants ++ s.waiters).Sublist s.arrivals
  nodup : s.arrivals.Nodup
  arrived : ∀ i ∈ s.arrivals, ∃ c, s.calls[i]? = some c ∧ c.Queued (i ∈ s.grants)

/-- Nobody waits for a slot that is free. -/
structure Inv (s : System) : Prop extends Base s where
  full : s.waiters ≠ [] → s.maxConcurrency ≤ s.inflight
  positive : s.waiters ≠ [] → 0 < s.maxConcurrency

theorem inv_new : new.Inv where
  ok := nofun
  inflight := rfl
  queue i := by simp [new]
  order := .refl _
  nodup := .nil
  arrived := nofun
  full h := absurd rfl h
  positive h := absurd rfl h

section

variable (h : Base s)

include h

/-- One call moves, and the queue changes with it. -/
theorem Base.move (hi : s.calls[i]? = some c) (c' : Call) (hcalls : t.calls = s.calls.set i c')
    (hok : c'.Ok) (hinflight : t.inflight + c.slots = s.inflight + c'.slots)
    (hqueue : ∀ j, j ∈ t.waiters ↔ if j = i then c'.waits = true else j ∈ s.waiters)
    (horder : (t.grants ++ t.waiters).Sublist t.arrivals) (hnodup : t.arrivals.Nodup)
    (harrived : ∀ j ∈ t.arrivals, j ≠ i → j ∈ s.arrivals ∧ (j ∈ t.grants ↔ j ∈ s.grants))
    (hqueued : i ∈ t.arrivals → c'.Queued (i ∈ t.grants)) : Base t := by
  have hlt : i < s.calls.length := (List.getElem?_eq_some_iff.mp hi).1
  have hself : t.calls[i]? = some c' := by rw [hcalls, List.getElem?_set_self hlt]
  have hother : ∀ j ≠ i, t.calls[j]? = s.calls[j]? := fun j hj => by
    rw [hcalls, List.getElem?_set_ne hj.symm]
  refine ⟨fun d hd => ?_, ?_, fun j => ?_, horder, hnodup, fun j hj => ?_⟩
  · rw [hcalls] at hd
    rcases List.mem_or_eq_of_mem_set hd with hd | rfl
    · exact h.ok d hd
    · exact hok
  · have hsum := Threads.sum_map_set Call.slots hi c'
    have hold := h.inflight
    rw [hcalls]
    omega
  · rw [hqueue]
    split
    next hj => simp [hj, hself]
    next hj => rw [hother j hj, h.queue]
  · by_cases hij : j = i
    · subst hij
      exact ⟨c', hself, hqueued hj⟩
    · obtain ⟨hold, hgrants⟩ := harrived j hj hij
      rw [hother j hij, hgrants]
      exact h.arrived j hold

theorem Base.okAt (hi : s.calls[i]? = some c) : c.Ok := h.ok c (List.mem_of_getElem? hi)

theorem Base.queuedAt (hi : s.calls[i]? = some c) (harrived : i ∈ s.arrivals) :
    c.Queued (i ∈ s.grants) := by
  obtain ⟨d, hd, hqueued⟩ := h.arrived i harrived
  obtain rfl := Option.mem_unique hd hi
  exact hqueued

theorem Base.slots_le (hi : s.calls[i]? = some c) : (c.slots : Int) ≤ s.inflight := by
  have hsum := Threads.sum_map_set Call.slots hi { c with phase := .ended }
  have hzero : Call.slots { c with phase := .ended } = 0 := by simp
  have := h.inflight
  omega

/-- The waiters that were granted, and those in the queue, are all different. -/
theorem Base.nodup_waiters : s.waiters.Nodup :=
  (List.nodup_append.mp (h.nodup.sublist h.order)).2.1

/-- The first waiter gets a slot. -/
theorem Base.grant {w : Nat} {rest : List Nat} (hw : s.waiters = w :: rest) :
    Base (s.grant w rest) := by
  obtain ⟨c, hc, hwaits⟩ := (h.queue w).mp (by simp [hw])
  have hok := h.okAt hc
  have hphase : c.phase = .waiting ∨ c.phase = .canceling := by
    simp only [Call.waits, decide_eq_true_eq] at hwaits
    exact hwaits.1
  have hzero := hok.fresh (.inr hwaits)
  have hbalance := hok.balance
  have hone : Call.slots { c with waiter := .granted, granted := c.granted + 1 } = 1 := by
    rcases hphase with hphase | hphase <;> simp [hphase]
  have hcalled : c.phase ≠ .called := by
    rcases hphase with hphase | hphase <;> simp [hphase]
  have hnotin : w ∉ rest := by
    have := h.nodup_waiters
    rw [hw] at this
    exact (List.nodup_cons.mp this).1
  refine h.move hc { c with waiter := .granted, granted := c.granted + 1 } ?_ ?_ ?_ (fun j => ?_) ?_
    h.nodup (fun j hj hne => ⟨hj, by simp [System.grant, hne]⟩) fun _ => ?_
  · exact List.ext_getElem? fun j => by grind [System.grant]
  · refine ⟨by dsimp only; omega, by dsimp only; omega, ?_, fun _ => rfl, by simp,
      fun h => absurd h hcalled⟩
    rintro (h | h)
    · exact absurd h hcalled
    · simp at h
  · simp only [System.grant]
    omega
  · rw [hw]
    split
    next hj => simp [hj, System.grant, hnotin]
    next hj => simp [hj, System.grant]
  · simpa [System.grant, hw] using h.order
  · exact ⟨hcalled, by simp [System.grant, hzero], .inl (by simp [hzero])⟩

/-- What `grantNextLocked` does: nothing, or one grant. -/
theorem Base.grantNextLocked_cases :
    s.grantNextLocked = s ∧
      (s.maxConcurrency ≤ 0 ∨ s.maxConcurrency ≤ s.inflight ∨ s.waiters = []) ∨
    ∃ w rest, s.waiters = w :: rest ∧ s.inflight < s.maxConcurrency ∧
      s.grantNextLocked = s.grant w rest := by
  unfold grantNextLocked
  split
  next hfull => exact .inl ⟨rfl, by rcases hfull with h | h <;> omega⟩
  next hfree =>
    have hqueued : ∀ w ∈ s.waiters, s.isQueued w = true := fun w hw => by
      obtain ⟨c, hc, hwaits⟩ := (h.queue w).mp hw
      simp only [Call.waits, decide_eq_true_eq] at hwaits
      simp [isQueued, hc, hwaits.2]
    cases hw : s.waiters with
    | nil =>
      have hsame : { s with waiters := [] } = s := by rw [← hw]
      exact .inl ⟨hsame, .inr (.inr rfl)⟩
    | cons w rest =>
      refine .inr ⟨w, rest, rfl, by omega, ?_⟩
      rw [List.dropWhile_cons_of_neg (by simp [hqueued w (by simp [hw])])]

/-- A slot is free or the limit has changed: the next waiters are granted. -/
theorem Base.grantNextLocked (hfull : s.waiters ≠ [] → s.maxConcurrency ≤ s.inflight + 1)
    (hpos : s.waiters ≠ [] → 0 < s.maxConcurrency) : s.grantNextLocked.Inv ∧
      (s.grantNextLocked = s ∨ s.grantNextLocked.inflight ≤ s.grantNextLocked.maxConcurrency) := by
  rcases h.grantNextLocked_cases with ⟨heq, hcases⟩ | ⟨w, rest, hw, hlt, heq⟩
  · rw [heq]
    refine ⟨⟨h, fun hne => ?_, hpos⟩, .inl rfl⟩
    have := hpos hne
    rcases hcases with h1 | h1 | h1
    · omega
    · exact h1
    · exact absurd h1 hne
  · rw [heq]
    have := hfull (by simp [hw])
    exact ⟨⟨h.grant hw, fun _ => by simp only [System.grant]; omega, fun _ => hpos (by simp [hw])⟩,
      .inr (by simp only [System.grant]; omega)⟩

theorem Base.grant_called {w : Nat} {rest : List Nat} (hw : s.waiters = w :: rest)
    (hi : s.calls[i]? = some c) (hc : c.phase = .called) : (s.grant w rest).calls[i]? = some c := by
  obtain ⟨d, hd, hwaits⟩ := (h.queue w).mp (by simp [hw])
  have hne : w ≠ i := by
    rintro rfl
    obtain rfl := Option.mem_unique hd hi
    simp [hc] at hwaits
  simp [System.grant, hne, hi]

/-- The loop of `Acquire` grants while there is a waiter and a free slot. -/
theorem Base.grantWaiters (n : Nat) (hn : s.waiters.length ≤ n) (hpos : 0 < s.maxConcurrency)
    (hi : s.calls[i]? = some c) (hc : c.phase = .called) :
    (grantWaiters n s).Inv ∧ (grantWaiters n s).maxConcurrency = s.maxConcurrency ∧
      (grantWaiters n s).calls[i]? = some c ∧
      (grantWaiters n s = s ∨ (grantWaiters n s).inflight ≤ s.maxConcurrency) := by
  induction n generalizing s with
  | zero =>
    have hnil : s.waiters = [] := List.eq_nil_of_length_eq_zero (Nat.le_zero.mp hn)
    exact ⟨⟨h, fun hne => absurd hnil hne, fun _ => hpos⟩, rfl, hi, .inl rfl⟩
  | succ n ih =>
    unfold System.grantWaiters
    split
    next hfree =>
      rcases h.grantNextLocked_cases with ⟨-, hcases⟩ | ⟨w, rest, hw, hlt, heq⟩
      · exfalso
        rcases hcases with h1 | h1 | h1
        · omega
        · omega
        · exact hfree.2 h1
      · rw [heq]
        obtain ⟨hinv, hmax, hcalls, hlimit⟩ := ih (h.grant hw)
          (by simp [System.grant, hw] at hn ⊢; omega) hpos (h.grant_called hw hi hc)
        refine ⟨hinv, hmax, hcalls, .inr ?_⟩
        rcases hlimit with hsame | hlimit
        · rw [hsame]
          simp only [System.grant]
          omega
        · exact hlimit
    next hfull =>
      refine ⟨⟨h, fun hne => ?_, fun _ => hpos⟩, rfl, hi, .inl rfl⟩
      exact Int.not_lt.mp fun hlt => hfull ⟨hlt, hne⟩

end

/-! ## Steps -/

/-- Some call gets a slot between the two states. -/
def Grants (s t : System) : Prop :=
  ∃ (i : Nat) (c c' : Call), s.calls[i]? = some c ∧ t.calls[i]? = some c' ∧ c.granted < c'.granted

/-- What a step must keep: the invariant, and slots are granted below the limit. -/
def Keeps (s t : System) : Prop := t.Inv ∧ (Grants s t → t.inflight ≤ t.maxConcurrency)

theorem not_grants_set (hi : s.calls[i]? = some c) (hcalls : t.calls = s.calls.set i c')
    (hgranted : c'.granted = c.granted) : ¬ Grants s t := by
  rintro ⟨j, d, d', hd, hd', hlt⟩
  rw [hcalls] at hd'
  obtain ⟨rfl, -, rfl⟩ | ⟨-, hd'⟩ := Threads.cases_set hd'
  · obtain rfl := Option.mem_unique hd hi
    omega
  · obtain rfl := Option.mem_unique hd hd'
    exact lt_irrefl _ hlt

/-- A call moves without a grant, and then `grantNextLocked` runs. -/
theorem Base.keeps_next (h : Base t) (hi : s.calls[i]? = some c)
    (hcalls : t.calls = s.calls.set i c') (hgranted : c'.granted = c.granted)
    (hfull : t.waiters ≠ [] → t.maxConcurrency ≤ t.inflight + 1)
    (hpos : t.waiters ≠ [] → 0 < t.maxConcurrency) : Keeps s t.grantNextLocked := by
  obtain ⟨hinv, hlimit⟩ := h.grantNextLocked hfull hpos
  refine ⟨hinv, fun hgrants => hlimit.resolve_left fun hsame => ?_⟩
  exact not_grants_set hi (by rw [hsame, hcalls]) hgranted hgrants

section

variable (h : Inv s)

include h

theorem Inv.keeps_self : Keeps s s :=
  ⟨h, fun ⟨_, _, _, hc, hc', hlt⟩ => absurd hlt (by simp [Option.mem_unique hc hc'])⟩

section

variable (hi : s.calls[i]? = some c)

include hi

/-- A call moves, and neither its slot nor its place in the queue changes. -/
theorem Inv.stay (c' : Call) (hok : c'.Ok) (hphase : c'.phase ≠ .called)
    (hslots : c'.slots = c.slots) (hwaits : c'.waits = c.waits) (hwaiter : c'.waiter = c.waiter)
    (hgranted : c'.granted = c.granted) : Keeps s { s with calls := s.calls.set i c' } := by
  refine ⟨⟨h.move hi c' rfl hok (by rw [hslots]) (fun j => ?_) h.order h.nodup
    (fun j hj _ => ⟨hj, Iff.rfl⟩) fun hj => ?_, h.full, h.positive⟩,
    fun hgrants => absurd hgrants (not_grants_set hi rfl hgranted)⟩
  · split
    next hj =>
      rw [hj, hwaits, h.queue]
      simp [hi]
    next => rfl
  · obtain ⟨-, hgrants, hleft⟩ := h.queuedAt hi hj
    exact ⟨hphase, by rw [hgranted]; exact hgrants, by rw [hgranted, hwaits, hwaiter]; exact hleft⟩

theorem Inv.enter (hc : c.phase = .called) : Keeps s (s.enter i c) := by
  have hok := h.okAt hi
  have hzero := hok.fresh (.inl hc)
  have hbalance := hok.balance
  have hvalid := hok.valid hc
  have hpos : 0 < c.config.maxConcurrency := by
    simp only [validate, Bool.not_eq_true', Bool.or_eq_false_iff, decide_eq_false_iff_not] at hvalid
    exact not_le.mp hvalid.1.1.1.1
  have hbase : Base { s with
      maxConcurrency := c.config.maxConcurrency, maxQueue := c.config.maxQueue } := { h with }
  obtain ⟨hinv, hmax, hcall, hlimit⟩ :=
    hbase.grantWaiters s.waiters.length (Nat.le_refl _) hpos hi hc
  replace hlimit := hlimit.imp_left (congrArg System.calls)
  unfold System.enter
  dsimp only
  generalize System.grantWaiters s.waiters.length
    { s with maxConcurrency := c.config.maxConcurrency, maxQueue := c.config.maxQueue } = t at *
  have hslots : c.slots = 0 := by omega
  have hgiven : c.given = 0 := by omega
  have hnew : i ∉ t.arrivals := fun hmem => (hinv.queuedAt hcall hmem).entered hc
  have hout : i ∉ t.grants ++ t.waiters := fun hmem => hnew (hinv.order.subset hmem)
  rw [List.mem_append, not_or] at hout
  have hmore {u : System} (c' : Call) (hcalls : u.calls = t.calls.set i c')
      (hgranted : c'.granted = c.granted) (hgrants : Grants s u) :
      t.inflight ≤ c.config.maxConcurrency :=
    hlimit.resolve_left fun hsame => not_grants_set hi (by rw [hcalls, hsame]) hgranted hgrants
  split
  next hfree =>
    refine ⟨⟨hinv.move hcall { c with phase := .permit, granted := c.granted + 1 } rfl ?_ ?_
      (fun j => by simp [hfree.2]) hinv.order hinv.nodup (fun j hj _ => ⟨hj, Iff.rfl⟩)
      fun hmem => absurd hmem hnew, fun hne => absurd hfree.2 hne, fun hne => absurd hfree.2 hne⟩,
      fun _ => ?_⟩
    · exact ⟨by dsimp only; omega, by simp [hzero, hgiven], by simp, nofun, by simp, nofun⟩
    · rw [hslots]
      simp
    · dsimp only at hmax ⊢
      omega
  next hbusy =>
    split
    next =>
      have hended : Call.Ok { c with phase := .ended } :=
        ⟨hok.once, by simp [hzero, hgiven], by simp, nofun, by simp, nofun⟩
      have hstay := hinv.stay hcall _ hended nofun (by simp [hc]) (by simp [hc]) rfl rfl
      exact ⟨hstay.1, fun hgrants => hmax ▸ hmore { c with phase := .ended } rfl rfl hgrants⟩
    next =>
      refine ⟨⟨hinv.move hcall { c with phase := .waiting, waiter := .queued } rfl ?_ ?_
        (fun j => ?_) ?_ ?_ (fun j hj hne => ⟨by simpa [hne] using hj, Iff.rfl⟩) fun _ => ?_,
        fun _ => ?_, fun _ => hmax ▸ hpos⟩, fun hgrants => ?_⟩
      · exact ⟨hok.once, by simp [hzero, hgiven], fun _ => hzero, nofun, by simp, nofun⟩
      · rw [hslots]
        simp
      · split <;> simp [*]
      · rw [← List.append_assoc]
        exact hinv.order.append_right _
      · exact List.nodup_append.mpr ⟨hinv.nodup, by simp, fun a ha b hb => by
          rintro rfl
          exact hnew (List.mem_singleton.mp hb ▸ ha)⟩
      · exact ⟨nofun, iff_of_false hout.1 (by simp [hzero]), .inr (.inl (by simp))⟩
      · rw [hmax]
        by_cases hnil : t.waiters = []
        · exact Int.not_lt.mp fun hlt => hbusy ⟨hlt, hnil⟩
        · exact hmax ▸ hinv.full hnil
      · rw [hmax]
        exact hmore { c with phase := .waiting, waiter := .queued } rfl rfl hgrants

/-- A call gives its slot back. -/
theorem Inv.release (hc : c.holds = true) {phase : Phase} {waiter : WaiterState}
    (hphase : phase = .released ∨ phase = .ended) : Keeps s (s.release i c phase waiter) := by
  have hok := h.okAt hi
  have hone : c.slots = 1 := if_pos hc
  have hbusy := h.slots_le hi
  have hwaits : c.waits = false := by
    unfold Call.holds at hc
    unfold Call.waits
    grind
  have hbalance := hok.balance
  have honce := hok.once
  have hzero : Call.slots { c with phase, waiter, given := c.given + 1 } = 0 := by
    rcases hphase with rfl | rfl <;> simp
  have hin : 0 < s.inflight := by omega
  have hended : Call.waits { c with phase, waiter, given := c.given + 1 } = false := by
    rcases hphase with rfl | rfl <;> simp
  have hbase : Base { s with
      inflight := s.inflight - 1
      calls := s.calls.set i { c with phase, waiter, given := c.given + 1 } } := by
    refine h.move hi { c with phase, waiter, given := c.given + 1 } rfl ?_ ?_ (fun j => ?_) h.order
      h.nodup (fun j hj _ => ⟨hj, Iff.rfl⟩) fun hj => ?_
    · refine ⟨honce, by dsimp only; omega, ?_, ?_, ?_, ?_⟩ <;>
        rcases hphase with rfl | rfl <;> simp
    · dsimp only
      omega
    · rw [hended]
      split
      next hj => simp [hj, h.queue, hi, hwaits, -Call.waits]
      next => rfl
    · refine ⟨?_, (h.queuedAt hi hj).granted_iff, .inl (by dsimp only; omega)⟩
      rcases hphase with rfl | rfl <;> simp
  unfold System.release
  rw [if_pos hin]
  refine hbase.keeps_next hi rfl rfl (fun hne => ?_) h.positive
  have := h.full hne
  dsimp only
  omega

/-- A call leaves the queue. -/
theorem Inv.cancelQueued (hc : c.waits = true) : Keeps s (System.grantNextLocked { s with
      calls := s.calls.set i { c with phase := .ended, waiter := .canceled }
      waiters := s.waiters.erase i }) := by
  have hok := h.okAt hi
  have hzero := hok.fresh (.inr hc)
  have hbalance := hok.balance
  have hslots : c.slots = 0 := by omega
  have hgiven : c.given = 0 := by omega
  have hsub : (s.waiters.erase i).Sublist s.waiters := List.erase_sublist
  have hne : s.waiters.erase i ≠ [] → s.waiters ≠ [] := fun hne hnil => hne (by simp [hnil])
  have hbase : Base { s with
      calls := s.calls.set i { c with phase := .ended, waiter := .canceled }
      waiters := s.waiters.erase i } := by
    refine h.move hi { c with phase := .ended, waiter := .canceled } rfl ?_ ?_ (fun j => ?_)
      ((hsub.append_left _).trans h.order) h.nodup (fun j hj _ => ⟨hj, Iff.rfl⟩)
      fun hj => ⟨nofun, (h.queuedAt hi hj).granted_iff, .inr (.inr rfl)⟩
    · exact ⟨hok.once, by simp [hzero, hgiven], by simp, nofun, by simp, nofun⟩
    · rw [hslots]
      simp
    · rw [h.nodup_waiters.mem_erase_iff]
      by_cases hj : j = i <;> simp
  refine hbase.keeps_next hi rfl rfl (fun hw => ?_) fun hw => h.positive (hne hw)
  have := h.full (hne hw)
  dsimp only
  omega

theorem Inv.cancelGranted (hc : c.phase = .canceling) : Keeps s (s.cancelGranted i c) := by
  have hok := h.okAt hi
  unfold System.cancelGranted
  cases hw : c.waiter with
  | queued => exact h.cancelQueued hi (by simp [hc, hw])
  | granted => exact h.release hi (by simp [hc, hw]) (.inr rfl)
  | canceled => exact absurd hw (hok.waiter (.inr hc))

end

theorem Inv.atCall {phase : Phase} {f : Call → System}
    (hf : ∀ c, s.calls[i]? = some c → c.phase = phase → Keeps s (f c)) :
    Keeps s (s.atCall i phase f) := by
  unfold System.atCall
  split
  next c hi =>
    split
    next hc => exact hf c hi hc
    next => exact h.keeps_self
  next => exact h.keeps_self

theorem Inv.acquire (hok : c.Ok) (hslots : c.slots = 0) (hwaits : c.waits = false) :
    Keeps s { s with calls := s.calls ++ [c] } := by
  refine ⟨⟨⟨forall_mem_snoc.mpr ⟨h.ok, hok⟩, ?_, fun j => ?_, h.order, h.nodup, fun j hj => ?_⟩,
    h.full, h.positive⟩, ?_⟩
  · simpa [hslots, -Call.slots] using h.inflight
  · rw [h.queue]
    constructor
    · rintro ⟨d, hd, hw⟩
      exact ⟨d, getElem?_snoc.mpr (.inl hd), hw⟩
    · rintro ⟨d, hd, hw⟩
      obtain hd | ⟨-, rfl⟩ := getElem?_snoc.mp hd
      · exact ⟨d, hd, hw⟩
      · rw [hwaits] at hw
        cases hw
  · obtain ⟨d, hd, hp⟩ := h.arrived j hj
    exact ⟨d, getElem?_snoc.mpr (.inl hd), hp⟩
  · rintro ⟨j, d, d', hd, hd', hlt⟩
    rw [getElem?_snoc, or_iff_left fun hj => (List.getElem?_eq_some_iff.mp hd).1.ne hj.1] at hd'
    rw [Option.mem_unique hd hd'] at hlt
    exact absurd hlt (lt_irrefl _)

theorem Inv.step (input : Input) : Keeps s (s.step input) := by
  cases input with
  | acquire config canceled =>
    refine h.acquire ⟨Nat.zero_le _, ?_, fun _ => rfl, ?_, ?_, ?_⟩ ?_ ?_
    all_goals split <;> simp_all
  | enter j => exact h.atCall fun c hi hc => h.enter hi hc
  | receive j =>
    refine h.atCall fun c hi hc => ?_
    have hok := h.okAt hi
    have hbalance := hok.balance
    split
    next hw =>
      refine h.stay hi { c with phase := .ready } ⟨hok.once, ?_, ?_, fun _ => hw, ?_, nofun⟩ nofun
        ?_ ?_ rfl rfl
      · simpa [hc] using hbalance
      all_goals simp [hc, hw]
    next => exact h.keeps_self
  | check j canceled =>
    refine h.atCall fun c hi hc => ?_
    have hok := h.okAt hi
    have hw := hok.ready hc
    have hbalance := hok.balance
    refine h.stay hi _ ⟨hok.once, ?_, ?_, ?_, ?_, ?_⟩ ?_ ?_ ?_ rfl rfl
    · cases canceled <;> simpa [hc, hw] using hbalance
    all_goals cases canceled <;> simp [hc, hw]
  | cancel j =>
    refine h.atCall fun c hi hc => ?_
    have hok := h.okAt hi
    have hbalance := hok.balance
    refine h.stay hi { c with phase := .canceling }
      ⟨hok.once, ?_, fun hw => ?_, nofun, fun _ => hok.waiter (.inl hc), nofun⟩ nofun ?_ ?_ rfl rfl
    · simpa [hc] using hbalance
    · exact hok.fresh (.inr (by simpa [hc] using hw))
    all_goals simp [hc]
  | cancelGranted j => exact h.atCall fun c hi hc => h.cancelGranted hi hc
  | release j => exact h.atCall fun c hi hc => h.release hi (by simp [hc]) (.inl rfl)

end

/-- A caller that gets a slot at once leaves nobody in the queue. -/
theorem enter_permit (hp : (s.enter i c).calls[i]?.map Call.phase = some .permit) :
    (s.enter i c).waiters = [] := by
  unfold System.enter at hp ⊢
  dsimp only at hp ⊢
  split
  next hfree => exact hfree.2
  next hbusy =>
    rw [if_neg hbusy] at hp
    split at hp <;> simp [List.getElem?_set] at hp

end System

/-- **Slots and FIFO**: the slots in use are those that calls hold; a slot is granted below the
limit; the queue holds the calls that wait, and of those that were ever put there each was granted a
slot in the order of arrival, still waits, or was canceled; nobody gets a slot at once while another
waits; a free slot has no waiter; and a call gives the slot that it was granted back once. -/
theorem slots_fair {history : List (Event System Input Unit)} {s : System}
    (h : machine.Run history s) :
    (s.inflight = s.calls.countP Call.holds ∧ (s.waiters ≠ [] → s.maxConcurrency ≤ s.inflight) ∧
      (∀ i, i ∈ s.waiters ↔ ∃ c, s.calls[i]? = some c ∧ c.waits = true) ∧
      (s.grants ++ s.waiters).Sublist s.arrivals ∧ s.arrivals.Nodup ∧
      (∀ i ∈ s.arrivals, ∃ c, s.calls[i]? = some c ∧ c.Queued (i ∈ s.grants)) ∧
      ∀ c ∈ s.calls, c.granted ≤ 1 ∧ (c.given = if c.holds then 0 else c.granted)) ∧
    ∀ e ∈ history, (System.Grants e.pre e.post → e.post.inflight ≤ e.post.maxConcurrency) ∧
      ∀ i, e.input = .enter i → e.pre.calls[i]?.map Call.phase = some .called →
        e.post.calls[i]?.map Call.phase = some .permit → e.post.waiters = [] := by
  have hinv {history s} (h : machine.Run history s) : s.Inv :=
    h.invariant (I := fun _ s => s.Inv) (fun _ hs => hs ▸ System.inv_new)
      fun _ s i hs _ => (hs.step i).1
  have hs := hinv h
  have hsum : ∀ l : List Call, (l.map Call.slots).sum = l.countP Call.holds := fun l => by
    induction l with
    | nil => rfl
    | cons c l ih => rw [List.map_cons, List.sum_cons, ih, List.countP_cons, Call.slots, add_comm]
  refine ⟨⟨?_, hs.full, hs.queue, hs.order, hs.nodup, hs.arrived,
    fun c hc => ⟨(hs.ok c hc).once, ?_⟩⟩, h.events fun history s input hrun _ =>
      ⟨((hinv hrun).step input).2, fun i hi hcalled hpermit => ?_⟩⟩
  · rw [hs.inflight, hsum]
  · have hbalance := (hs.ok c hc).balance
    have honce := (hs.ok c hc).once
    split <;> simp_all
  · obtain ⟨c, hc, hphase⟩ := Option.map_eq_some_iff.mp hcalled
    obtain rfl : input = .enter i := hi
    have hstep : s.step (.enter i) = s.enter i c := by
      dsimp only [Machine.event_pre] at hc
      simp [System.step, System.atCall, hc, hphase]
    simp only [Machine.event_post, machine, hstep] at hpermit ⊢
    exact System.enter_permit hpermit

namespace OneSlot

/-- One slot, and a queue of three. -/
def config : BulkheadPolicy := ⟨true, 1, 3, 10⟩

/-- Three callers wait. The second one gets the slot of the first, the third one gives up. -/
def inputs : List Input :=
  [.acquire config false, .enter 0, .acquire config false, .enter 1,
    .acquire config false, .enter 2,
    .acquire config false, .enter 3, .release 0, .receive 1, .check 1 false, .cancel 2,
    .cancelGranted 2]

theorem granted_in_turn : ∃ history, machine.Run history (machine.final .new inputs) ∧
    (machine.final .new inputs).arrivals = [1, 2, 3] ∧ (machine.final .new inputs).grants = [1] ∧
    (machine.final .new inputs).waiters = [3] ∧ (machine.final .new inputs).inflight = 1 ∧
    (machine.final .new inputs).inflight = (machine.final .new inputs).calls.countP Call.holds := by
  have hallows : machine.Allows [] .new inputs := by simp [Machine.Allows, inputs, machine]
  have hrun := (Machine.Run.init (M := machine) rfl).extend hallows
  exact ⟨_, hrun, by decide, by decide, by decide, by decide, (slots_fair hrun).1.1⟩

end OneSlot

end Keelith.Bulkhead

import Keelith.Cache.Recent

/-!
# Contexts of the callers

`Get` gives its context to the backend and to the loader, and so does the flight that it creates:
`singleflight` runs the function of the caller that came first. `Callers` adds the contexts to the
system.

- **Contexts**: a caller is known by the index of its thread. `owner` says which caller has created
  a flight; the flight uses that caller's context. A context can be done at any time
  (`Occurrence.cancel`), before the call too.
- **The outside** (`Obeys`): the backend and the loader return an error if their context is done.
  Only a caller whose context is done leaves early.
- **Excuses** are not in the source: `excused` says that a failure other than a done context lies
  behind what the thread returns. A call that fails while its context is live is such a failure, and
  so is a codec that fails. A negative entry has the excuse of the flight that wrote it (`entry`),
  and a caller has the one of the flight that it waited for.
-/

namespace Keelith.Cache

variable {τ : Type}

/-! ## Failures -/

/-- `read` returns the negative error. -/
def Config.readsNegative (cfg : Config τ) (reply : Reply) (entry : Option Entry) : Bool :=
  match cfg.read reply entry with
  | .negative => true
  | _ => false

/-- A call of the backend or the loader fails in the step. -/
@[simp] def Thread.fails (cfg : Nat → Config τ) (s : System τ) (answer : Answer τ) : Thread τ → Bool
  | .get g => g.fails (cfg g.cache) s answer
  | .flight f => f.fails (cfg f.cache) s answer
  | .mutation _ => false

/-- The value cannot be encoded. -/
def Thread.miscodes (cfg : Nat → Config τ) : Thread τ → Bool
  | .flight ⟨cache, _, _, .storing load⟩ => !(load.envelope (cfg cache)).isOk
  | _ => false

/-- The key whose negative entry the step reads. -/
def Thread.negative (cfg : Nat → Config τ) (s : System τ) (answer : Answer τ) :
    Thread τ → Option String
  | .get ⟨cache, key, _, .reading⟩ =>
    if (cfg cache).readsNegative answer.reply (s.shared.entries key) then some key else none
  | .flight ⟨cache, key, _, .counted _⟩ =>
    if (cfg cache).readsNegative answer.reply (s.shared.entries key) then some key else none
  | _ => none

/-- The flight whose result the step takes. -/
def Thread.receives : Thread τ → Option Nat
  | .get ⟨_, _, _, .waiting index⟩ => some index
  | _ => none

/-- The loader has failed, and the flight goes on to store a negative entry. -/
@[simp] def FlightPhase.loadFailed : FlightPhase τ → Bool
  | .storing load | .writing load _ | .unlocking load _ => !load.outcome.isOk
  | _ => false

/-- The flight has an error. -/
@[simp] def FlightPhase.failed : FlightPhase τ → Bool
  | .unlocking load writeErr => !load.outcome.isOk || writeErr.isSome
  | .storing load | .writing load _ => !load.outcome.isOk
  | .finishing result | .finished result => !result.isOk
  | _ => false

/-! ## Callers -/

/-- The system with the contexts of its callers. -/
structure Callers (τ : Type) where
  system : System τ
  /-- The context of the caller is done. -/
  done : Nat → Bool
  owner : Nat → Nat
  excused : Nat → Bool
  entry : String → Bool

namespace Callers

/-- The caller whose context the thread uses. -/
def context (c : Callers τ) (index : Nat) : Thread τ → Nat
  | .flight _ => c.owner index
  | _ => index

/-- The excuse of the thread after a step. -/
@[simp] def excuse (cfg : Nat → Config τ) (c : Callers τ) (index : Nat) (answer : Answer τ)
    (t : Thread τ) : Bool :=
  c.excused index || (t.fails cfg c.system answer && !c.done (c.context index t)) ||
    t.miscodes cfg ||
    (t.negative cfg c.system answer).any c.entry || t.receives.any c.excused

/-- The callers after a step of the thread at the index. -/
def moved (cfg : Nat → Config τ) (c : Callers τ) (index : Nat) (answer : Answer τ) (t : Thread τ)
    (move : Move τ) : Callers τ :=
  let excuse := c.excuse cfg index answer t
  { system := c.system.moved index move
    done := c.done
    -- a thread that is created has the next index
    owner := Function.update c.owner c.system.threads.length index
    excused := Function.update c.excused index excuse
    entry := match move.output with
      | .stores _ key _ _ => Function.update c.entry key excuse
      | _ => c.entry }

end Callers

/-- What may happen next. -/
inductive Occurrence (τ : Type) where
  | input (input : Input τ)
  | cancel (caller : Nat)

namespace Callers

/-- One occurrence. -/
def exec (sf : Singleflight) (cfg : Nat → Config τ) (c : Callers τ) :
    Occurrence τ → Unit × Callers τ
  | .cancel caller => ((), { c with done := Function.update c.done caller true })
  | .input (.step index answer) =>
    match c.system.threads[index]? with
    | none => ((), { c with system := (c.system.exec sf cfg (.step index answer)).2 })
    | some t =>
      match t.step sf cfg c.system index answer with
      | none => ((), { c with system := (c.system.exec sf cfg (.step index answer)).2 })
      | some move => ((), c.moved cfg index answer t move)
  | .input input => ((), { c with system := (c.system.exec sf cfg input).2 })

/-- What the outside keeps to. -/
def Obeys (c : Callers τ) : Occurrence τ → Prop
  | .input (.step index answer) =>
    match c.system.threads[index]? with
    | some (.get _) =>
      (c.done index = true → answer.reply.error?.isSome = true) ∧
        (answer.canceled.isSome = true → c.done index = true)
    | some (.flight _) =>
      c.done (c.owner index) = true → answer.reply.error?.isSome = true ∧ answer.loaded.isOk = false
    | _ => True
  | _ => True

instance (c : Callers τ) (o : Occurrence τ) : Decidable (c.Obeys o) := by
  unfold Obeys
  split
  · split <;> infer_instance
  · infer_instance

/-- New caches and live contexts. -/
def new : Callers τ := ⟨.new, fun _ => false, fun _ => 0, fun _ => false, fun _ => false⟩

/-- The machine. -/
def machine (sf : Singleflight) (cfg : Nat → Config τ) :
    Machine (Callers τ) (Occurrence τ) Unit where
  init c := c = .new
  exec := exec sf cfg
  may _ c o := c.Obeys o

/-! ## The condition -/

/-- The function of the flight has returned. -/
def hasReturned : FlightPhase τ → Bool
  | .finishing _ | .finished _ => true
  | _ => false

/-- The flight at the index runs. -/
def runs (c : Callers τ) (flight : Nat) : Bool :=
  match c.system.threads[flight]? with
  | some (.flight f) => !hasReturned f.phase
  | _ => false

/-- The context of the flight is done, and the flight runs or has failed for no other reason. -/
def suffers (c : Callers τ) (flight : Nat) : Bool :=
  match c.system.threads[flight]? with
  | some (.flight f) =>
    c.done (c.owner flight) && (!hasReturned f.phase || (f.phase.failed && !c.excused flight))
  | _ => false

/-- The caller waits for a flight that runs with the context of another one. -/
def depends (c : Callers τ) (owner index : Nat) : Thread τ → Bool
  | .get ⟨_, _, _, .waiting flight⟩ => index != owner && !c.done index && c.owner flight == owner &&
      c.runs flight
  | _ => false

/-- No context becomes done while another live caller waits for a flight that runs with it; no
caller joins a flight that suffers from its context; the error of a loader whose context is done is
not negative. -/
def Apart (cfg : Nat → Config τ) (c : Callers τ) : Occurrence τ → Prop
  | .cancel caller => ∀ index < c.system.threads.length,
      (c.system.threads[index]?).any (c.depends caller index) = false
  | .input (.step index answer) =>
    match c.system.threads[index]? with
    | some (.get ⟨cache, key, _, .joining⟩) =>
      (c.system.shared.group cache key).any c.suffers = false
    | some (.flight ⟨cache, _, _, .loading _ _ _⟩) =>
      match answer.loaded with
      | .error err => c.done (c.owner index) = true → (cfg cache).policy.negative err = false
      | .ok _ => True
    | _ => True
  | _ => True

instance (cfg : Nat → Config τ) (c : Callers τ) (o : Occurrence τ) : Decidable (c.Apart cfg o) := by
  unfold Apart
  split
  · infer_instance
  · split
    · infer_instance
    · split <;> infer_instance
    · infer_instance
  · infer_instance

end Callers

/-! ## Errors of a flight -/

/-- What a step of a flight does to its errors. -/
structure FailsOnly (cfg : Nat → Config τ) (s : System τ) (answer : Answer τ) (f : Flight τ)
    (phase : FlightPhase τ) : Prop where
  failed : phase.failed = true → f.phase.failed = true ∨
    (Thread.flight f).fails cfg s answer = true ∨
    (Thread.flight f).miscodes cfg = true ∨ (Thread.flight f).negative cfg s answer = some f.key
  loadFailed : phase.loadFailed = true → f.phase.loadFailed = true ∨
    ∃ generation version startedAt err,
    f.phase = .loading generation version startedAt ∧ answer.loaded = .error err ∧
      (cfg f.cache).policy.negative err = true
  envelope : ∀ load envelope, phase = .writing load envelope →
    load.envelope (cfg f.cache) = .ok envelope
  returned : Callers.hasReturned f.phase = true → Callers.hasReturned phase = true ∧
    phase.failed = f.phase.failed

variable {sf : Singleflight} {answer : Answer τ} {cfg : Nat → Config τ} {move : Move τ}
  {s : System τ} {index : Nat} {e : Entry} {key : String}

theorem FlightMove.failsOnly {f : Flight τ} {phase : FlightPhase τ} {shared : Shared}
    {output : Observation} (h : FlightMove (cfg f.cache) s index answer f phase shared output) :
    FailsOnly cfg s answer f phase := by
  obtain ⟨cache, key, createdAt, before⟩ := f
  cases h with
  | count hp | miss hp | version hp | start hp =>
    cases hp
    exact ⟨by simp, by simp, by simp, fun h => by cases h⟩
  | hit hp =>
    cases hp
    exact ⟨by simp [Except.toBool], by simp, by simp, fun h => by cases h⟩
  | negative hp read =>
    cases hp
    dsimp only at read
    exact ⟨fun _ => .inr (.inr (.inr (by simp [Thread.negative, Config.readsNegative, read]))),
      by simp, by simp, fun h => by cases h⟩
  | fail fails =>
    refine ⟨fun _ => .inr (.inl fails), by simp, by simp, fun hreturned => ?_⟩
    cases before <;> simp [Callers.hasReturned] at hreturned fails
  | @load generation version startedAt hp negative =>
    cases hp
    refine ⟨fun hfailed => .inr (.inl hfailed), fun hfailed => .inr ?_, by simp,
      fun h => by cases h⟩
    cases hloaded : answer.loaded with
    | ok => simp [hloaded, Except.toBool] at hfailed
    | error err => exact ⟨generation, version, startedAt, err, rfl, rfl, negative err hloaded⟩
  | @lock load hp =>
    cases hp
    rcases load.check_cases (cfg cache) (s.shared.generation cache (mutationStripeIndex key)) with
      ⟨err, hcheck, herr⟩ | ⟨-, envelope, henvelope, hcheck⟩
    all_goals
      refine ⟨fun hfailed => ?_, fun hfailed => .inl ?_, fun load' envelope' hphase => ?_,
        fun h => by cases h⟩
      all_goals simp only [Flight.stripe, hcheck] at *
    · rw [FlightPhase.failed, Bool.or_eq_true] at hfailed
      rcases hfailed with hfailed | hfailed
      · exact .inl hfailed
      · exact .inr (.inr (.inl (by simp [Thread.miscodes, herr hfailed])))
    · exact hfailed
    · cases hphase
    · exact .inl hfailed
    · exact hfailed
    · cases hphase
      exact henvelope
  | write hp | skip hp =>
    cases hp
    refine ⟨fun hfailed => ?_, fun hfailed => .inl hfailed, by simp, fun h => by cases h⟩
    rw [FlightPhase.failed, Bool.or_eq_true] at hfailed
    exact hfailed.imp_right .inl
  | @unlock load writeErr hp =>
    cases hp
    refine ⟨fun hfailed => .inl ?_, by simp, by simp, fun h => by cases h⟩
    unfold FlightPhase.failed Load.result at hfailed
    cases houtcome : load.outcome <;> cases writeErr <;> simp_all [Except.toBool]
  | finish hp =>
    cases hp
    exact ⟨fun hfailed => .inl hfailed, by simp, by simp, fun _ => ⟨rfl, rfl⟩⟩

/-! ## Negative entries -/

/-- The entry is negative. -/
def Entry.negative (e : Entry) : Prop := e.payload.head? = some envelopeNegative

/-- What `read` takes for negative is a negative entry. -/
theorem Config.negative_of_reads {cfg : Config τ} {reply : Reply} {entry : Option Entry}
    (h : cfg.readsNegative reply entry = true) : ∃ e, entry = some e ∧ e.negative := by
  unfold readsNegative read at h
  cases reply with
  | fail => cases h
  | ok =>
    cases entry with
    | none => cases h
    | some e =>
      dsimp only at h
      split at h
      next hread =>
        split at hread
        next => cases hread
        next hpayload =>
          split at hread
          next hkind => simp [Entry.negative, hpayload, hkind]
          next =>
            split at hread
            next => split at hread <;> cases hread
            next => cases hread
      next => cases h

/-- A value is no negative entry. -/
theorem not_negative_value {payload : List UInt8} {writtenAt : Nat} {loadedAt : Option Nat} :
    ¬ Entry.negative ⟨envelopeValue :: payload, writtenAt, loadedAt⟩ := by
  simp only [Entry.negative, List.head?_cons]
  decide

/-! ## Runs -/

namespace Callers

/-- The errors of a flight have an excuse, or its context is done. -/
structure FlightOk (cfg : Nat → Config τ) (c : Callers τ) (index : Nat) (f : Flight τ) : Prop where
  failed : f.phase.failed = true → c.excused index = true ∨ c.done (c.owner index) = true
  loadFailed : f.phase.loadFailed = true → c.excused index = true
  envelope : ∀ load envelope, f.phase = .writing load envelope →
    load.envelope (cfg f.cache) = .ok envelope

/-- What a live caller waits for: a flight that runs with a live context, or that has an excuse for
its error. -/
structure WaitsFor (c : Callers τ) (index : Nat) (f : Flight τ) : Prop where
  running : hasReturned f.phase = false → c.done (c.owner index) = false
  returned : hasReturned f.phase = true → f.phase.failed = true → c.excused index = true

/-- The invariant of the runs in which the callers stay apart. -/
structure ApartInv (cfg : Nat → Config τ) (c : Callers τ) : Prop where
  group : ∀ cache key index, c.system.shared.group cache key = some index →
    index < c.system.threads.length
  waits : ∀ (i : Nat) (g : GetCall τ) (index : Nat), c.system.threads[i]? = some (.get g) →
    g.phase = .waiting index →
    index < c.system.threads.length
  entry : ∀ key e, c.system.shared.entries key = some e → e.negative → c.entry key = true
  flight : ∀ (index : Nat) (f : Flight τ), c.system.threads[index]? = some (.flight f) →
    FlightOk cfg c index f
  waiting : ∀ (i : Nat) (g : GetCall τ) (index : Nat) (f : Flight τ),
    c.system.threads[i]? = some (.get g) →
    g.phase = .waiting index → c.done i = false → c.system.threads[index]? = some (.flight f) →
      WaitsFor c index f
  returned : ∀ (i : Nat) (g : GetCall τ) (err : Error), c.system.threads[i]? = some (.get g) →
    g.phase = .returned (.error err) → validateKey g.key = true → c.done i = false →
      c.excused i = true

variable {c : Callers τ}

theorem ApartInv.new : ApartInv cfg (.new : Callers τ) := by
  constructor <;> simp [Callers.new, System.new]

/-- A context becomes done. -/
theorem ApartInv.cancel (h : ApartInv cfg c) {caller : Nat}
    (hapart : c.Apart cfg (.cancel caller)) :
    ApartInv cfg { c with done := Function.update c.done caller true } := by
  have hlive : ∀ i, Function.update c.done caller true i = false → i ≠ caller ∧
      c.done i = false := by
    intro i hi
    rw [Function.update_apply] at hi
    split at hi
    next => cases hi
    next hne => exact ⟨hne, hi⟩
  have hdone : ∀ i, c.done i = true → Function.update c.done caller true i = true := by
    intro i hi
    rw [Function.update_apply, hi, ite_self]
  refine ⟨h.group, h.waits, h.entry, fun index f hf => ?_, fun i g index f hg hwait hi hf => ?_,
    fun i g err hg hreturned hkey hi => h.returned i g err hg hreturned hkey (hlive i hi).2⟩
  · obtain ⟨hfailed, hload, henvelope⟩ := h.flight index f hf
    exact ⟨fun hp => (hfailed hp).imp_right (hdone _), hload, henvelope⟩
  · obtain ⟨hne, hi⟩ := hlive i hi
    obtain ⟨hrunning, hreturned⟩ := h.waiting i g index f hg hwait hi hf
    refine ⟨fun hruns => ?_, hreturned⟩
    have hdepends := hapart i (List.getElem?_eq_some_iff.mp hg).1
    obtain ⟨cache, key, calledAt, phase⟩ := g
    obtain rfl : phase = .waiting index := hwait
    have howner : c.owner index ≠ caller := by
      simpa [hg, depends, runs, hf, hruns, hi, hne] using hdepends
    exact (Function.update_of_ne howner _ _).trans (hrunning hruns)

section Moved

variable {t : Thread τ}

variable {j : Nat}

/-- A step takes no excuse back. -/
theorem excused_moved (h : c.excused j = true) :
    (c.moved cfg index answer t move).excused j = true := by
  by_cases hj : j = index
  · subst hj
    simp [moved, h]
  · simp [moved, Function.update_of_ne hj, h]

theorem owner_moved (h : j < c.system.threads.length) :
    (c.moved cfg index answer t move).owner j = c.owner j :=
  Function.update_of_ne (Nat.ne_of_lt h) _ _

theorem excuse_moved : (c.moved cfg index answer t move).excused index =
    c.excuse cfg index answer t :=
  Function.update_self ..

theorem length_moved : (c.moved cfg index answer t move).system.threads.length =
    c.system.threads.length + move.spawned.length := by
  simp [moved, System.moved]

namespace ApartInv

/-- A flight that does not move is waited for as before. -/
theorem waitsFor_kept {f : Flight τ} (hwaits : WaitsFor c j f)
    (hj : c.system.threads[j]? = some (.flight f)) :
    WaitsFor (c.moved cfg index answer t move) j f := by
  refine ⟨fun hruns => ?_, fun hreturned hfailed =>
    excused_moved (hwaits.returned hreturned hfailed)⟩
  rw [owner_moved (List.getElem?_eq_some_iff.mp hj).1]
  exact hwaits.running hruns

section

variable {phase : FlightPhase τ} {f : Flight τ} (h : ApartInv cfg c)

include h

/-- The negative entry that a step reads has an excuse. -/
theorem negative (hnegative : t.negative cfg c.system answer = some key) : c.entry key = true := by
  unfold Thread.negative at hnegative
  split at hnegative
  case h_3 => cases hnegative
  all_goals
    split at hnegative
    next hreads =>
      obtain ⟨e, he, hn⟩ := Config.negative_of_reads hreads
      exact Option.some.inj hnegative ▸ h.entry _ e he hn
    next => cases hnegative

/-- What a flight has of errors after it has moved. -/
theorem flightOk_moved (hapart : c.Apart cfg (.input (.step index answer)))
    (ht : c.system.threads[index]? = some (.flight f))
    (honly : FailsOnly cfg c.system answer f phase) :
    FlightOk cfg (c.moved cfg index answer (.flight f) move) index { f with phase } := by
  have hf := h.flight index f ht
  have howner : (c.moved cfg index answer (.flight f) move).owner index = c.owner index :=
    owner_moved (List.getElem?_eq_some_iff.mp ht).1
  refine ⟨fun hfailed => ?_, fun hfailed => ?_, honly.envelope⟩
  · rw [howner, excuse_moved]
    rcases honly.failed hfailed with hbefore | hfails | hmiscodes | hnegative
    · rcases hf.failed hbefore with hexcused | hdone
      · exact .inl (by simp [hexcused])
      · exact .inr hdone
    · cases hdone : c.done (c.owner index) with
      | true => exact .inr hdone
      | false => exact .inl (by simp [context, hfails, hdone, -Thread.fails])
    · exact .inl (by simp [hmiscodes])
    · exact .inl (by simp [hnegative, h.negative hnegative])
  · rw [excuse_moved]
    rcases honly.loadFailed hfailed with
      hbefore | ⟨generation, version, startedAt, err, hphase, hloaded, hnegative⟩
    · simp [hf.loadFailed hbefore]
    · obtain ⟨cache, key, createdAt, p⟩ := f
      obtain rfl : p = .loading generation version startedAt := hphase
      have hlive : c.done (c.owner index) = false := by
        simp only [Apart, ht, hloaded, hnegative, Bool.true_eq_false, imp_false,
          Bool.not_eq_true] at hapart
        exact hapart
      simp [hloaded, context, hlive, Except.toBool]

/-- The flight that a caller waits for, after the flight has moved. -/
theorem waitsFor_moved (hapart : c.Apart cfg (.input (.step index answer)))
    (hwaits : WaitsFor c index f) (ht : c.system.threads[index]? = some (.flight f))
    (honly : FailsOnly cfg c.system answer f phase) :
    WaitsFor (c.moved cfg index answer (.flight f) move) index { f with phase } := by
  have howner : (c.moved cfg index answer (.flight f) move).owner index = c.owner index :=
    owner_moved (List.getElem?_eq_some_iff.mp ht).1
  cases hreturned : hasReturned f.phase with
  | true =>
    obtain ⟨hstays, hsame⟩ := honly.returned hreturned
    refine ⟨fun hruns => ?_, fun _ hfailed => ?_⟩
    · rw [show hasReturned phase = false from hruns] at hstays
      cases hstays
    · rw [show phase.failed = f.phase.failed from hsame] at hfailed
      exact excused_moved (hwaits.returned hreturned hfailed)
  | false =>
    have hlive := hwaits.running hreturned
    refine ⟨fun _ => howner.symm ▸ hlive, fun _ hfailed => ?_⟩
    rcases (h.flightOk_moved hapart ht honly).failed hfailed with hexcused | hdone
    · exact hexcused
    · rw [howner, show (c.moved cfg index answer (.flight f) move).done = c.done from rfl,
        hlive] at hdone
      cases hdone

end

variable {g : GetCall τ} {f : Flight τ} (h : ApartInv cfg c)
  (ht : c.system.threads[index]? = some t)
  (hsteps : Steps cfg c.system (.step index answer) move.output
    (c.moved cfg index answer t move).system)

include h ht hsteps

theorem entry_moved (he : (c.moved cfg index answer t move).system.shared.entries key = some e)
    (hnegative : e.negative) : (c.moved cfg index answer t move).entry key = true := by
  rcases hsteps.changes.entries he with
    ⟨hbefore, hother⟩ | ⟨payload, rfl⟩ | ⟨_, _, f, load, hinput, hf, hphase, -, houtput⟩
  · have hkept := h.entry key e hbefore hnegative
    cases houtput : move.output with
    | stores cache key' createdAt startedAt =>
      have hkey : key ≠ key' := by
        rintro rfl
        exact hother _ _ _ houtput
      simpa [Callers.moved, houtput, Function.update_of_ne hkey] using hkept
    | _ => simpa [Callers.moved, houtput] using hkept
  · exact absurd hnegative not_negative_value
  · cases hinput
    obtain rfl := Option.mem_unique ht hf
    -- the loader has failed, since the envelope is negative
    have hok := h.flight index f ht
    have hfailed : f.phase.loadFailed = true := by
      rw [hphase]
      have henvelope := hok.envelope load _ hphase
      unfold Load.envelope at henvelope
      cases houtcome : load.outcome with
      | error err => simp [houtcome, Except.toBool]
      | ok value =>
        simp only [houtcome] at henvelope
        cases hencode : (cfg f.cache).codec.encode value with
        | error err => simp [hencode, Except.map] at henvelope
        | ok payload =>
          simp only [hencode, Except.map, Except.ok.injEq] at henvelope
          rw [Entry.negative, ← henvelope] at hnegative
          exact absurd (Option.some.inj hnegative) (by decide)
    simp [Callers.moved, houtput, hok.loadFailed hfailed]

theorem waiting_moved (hapart : c.Apart cfg (.input (.step index answer))) {i target : Nat}
    (hg : (c.moved cfg index answer t move).system.threads[i]? = some (.get g))
    (hwait : g.phase = .waiting target) (hi : c.done i = false)
    (hf : (c.moved cfg index answer t move).system.threads[target]? = some (.flight f)) :
    WaitsFor (c.moved cfg index answer t move) target f := by
  cases hsteps.origin hg with
  | kept hbefore =>
    cases hsteps.origin hf with
    | kept hflight => exact waitsFor_kept (h.waiting i g target f hbefore hwait hi hflight) hflight
    | created _ next => exact absurd (h.waits i g _ hbefore hwait) (by simp [next])
    | @flightMoved _ f' phase hflight hmove =>
      obtain rfl := Option.mem_unique ht hflight
      exact h.waitsFor_moved hapart (h.waiting i g _ f' hbefore hwait hi ht) ht hmove.failsOnly
  | @getMoved _ g' phase _ hbefore hmove =>
    obtain rfl := Option.mem_unique ht hbefore
    generalize (c.moved cfg index answer (.get g') move).system.shared = shared at hmove
    cases hmove with
    | @join flight hjoining hgroup =>
      obtain rfl : flight = target := GetPhase.waiting.inj hwait
      cases hsteps.origin hf with
      | kept hflight =>
        have hspared : c.suffers flight = false := by
          obtain ⟨cache, key, calledAt, p⟩ := g'
          obtain rfl : p = .joining := hjoining
          simp only [Apart, ht] at hapart
          rwa [show c.system.shared.group cache key = _ from hgroup] at hapart
        refine waitsFor_kept ⟨fun hruns => ?_, fun hreturned hfailed => ?_⟩ hflight
        · simpa [suffers, hflight, hruns] using hspared
        · rcases (h.flight flight f hflight).failed hfailed with hexcused | hdone
          · exact hexcused
          · simpa [suffers, hflight, hreturned, hfailed, hdone, -FlightPhase.failed] using hspared
      | created _ next => exact absurd (h.group _ _ _ hgroup) (by simp [next])
      | flightMoved hflight =>
        rw [hbefore] at hflight
        cases hflight
    | create =>
      obtain rfl := GetPhase.waiting.inj hwait
      cases hsteps.origin hf with
      | kept hflight => exact absurd (List.getElem?_eq_some_iff.mp hflight).1 (Nat.lt_irrefl _)
      | created =>
        refine ⟨fun _ => ?_, nofun⟩
        rw [show (c.moved cfg index answer (.get g') move).owner c.system.threads.length =
          index from Function.update_self ..]
        exact hi
      | flightMoved hflight =>
        exact absurd (List.getElem?_eq_some_iff.mp hflight).1 (Nat.lt_irrefl _)
    | _ => cases hwait

theorem returned_moved (hobeys : c.Obeys (.input (.step index answer))) {i : Nat} {err : Error}
    (hg : (c.moved cfg index answer t move).system.threads[i]? = some (.get g))
    (hreturned : g.phase = .returned (.error err)) (hkey : validateKey g.key = true)
    (hi : c.done i = false) : (c.moved cfg index answer t move).excused i = true := by
  cases hsteps.origin hg with
  | kept hbefore => exact excused_moved (h.returned i g err hbefore hreturned hkey hi)
  | @getMoved _ g' phase _ hbefore hmove =>
    obtain rfl := Option.mem_unique ht hbefore
    rw [excuse_moved]
    generalize (c.moved cfg index answer (.get g') move).system.shared = shared at hmove
    cases hmove with
    | negative hp read =>
      have hnegative : (Thread.get g').negative cfg c.system answer = some g'.key := by
        obtain ⟨cache, key, calledAt, p⟩ := g'
        obtain rfl : p = .reading := hp
        dsimp only at read
        simp [Thread.negative, Config.readsNegative, read]
      simp [hnegative, h.negative hnegative]
    | fail fails => simp [fails, context, hi, -GetCall.fails]
    | cancel canceled =>
      simp only [Obeys, ht] at hobeys
      rw [hobeys.2 canceled] at hi
      cases hi
    | @receive target f _ hphase hf hfinished =>
      obtain rfl := GetPhase.returned.inj hreturned
      have hwaits := h.waiting index g' target f ht hphase hi hf
      have hexcused : c.excused target = true :=
        hwaits.returned (by rw [hfinished]; rfl) (by rw [hfinished]; rfl)
      obtain ⟨cache, key, calledAt, p⟩ := g'
      obtain rfl : p = .waiting target := hphase
      simp [Thread.receives, hexcused]
    | _ => cases hreturned

/-- A thread takes a step. -/
theorem moved (hobeys : c.Obeys (.input (.step index answer)))
    (hapart : c.Apart cfg (.input (.step index answer))) :
    ApartInv cfg (c.moved cfg index answer t move) := by
  have hlength : c.system.threads.length ≤
      (c.moved cfg index answer t move).system.threads.length := by
    rw [length_moved]
    omega
  have hgroups : ∀ cache key target,
      (c.moved cfg index answer t move).system.shared.group cache key =
        some target → target < (c.moved cfg index answer t move).system.threads.length := by
    intro cache key target hgroup
    rcases hsteps.group hgroup with hbefore | hcreated
    · exact (h.group cache key target hbefore).trans_le hlength
    · exact (List.getElem?_eq_some_iff.mp hcreated).1
  refine ⟨hgroups, ?_, ?_, ?_, ?_, ?_⟩
  · intro i g target hg hwait
    cases hsteps.origin hg with
    | kept hbefore => exact (h.waits i g target hbefore hwait).trans_le hlength
    | @getMoved _ g' phase _ hbefore hmove =>
      obtain rfl := Option.mem_unique ht hbefore
      generalize hshared : (c.moved cfg index answer (.get g') move).system.shared = shared at hmove
      cases hmove with
      | join _ hgroup =>
        obtain rfl := GetPhase.waiting.inj hwait
        exact (h.group _ _ _ hgroup).trans_le hlength
      | create =>
        obtain rfl := GetPhase.waiting.inj hwait
        exact hgroups g'.cache g'.key _ (by rw [hshared]; simp)
      | _ => cases hwait
  · intro key e he hnegative
    exact h.entry_moved ht hsteps he hnegative
  · intro j f hf
    cases hsteps.origin hf with
    | kept hbefore =>
      obtain ⟨hfailed, hload, henvelope⟩ := h.flight j f hbefore
      refine ⟨fun hp => (hfailed hp).imp excused_moved fun hdone => ?_,
        fun hp => excused_moved (hload hp), henvelope⟩
      rw [owner_moved (List.getElem?_eq_some_iff.mp hbefore).1]
      exact hdone
    | created => constructor <;> simp
    | flightMoved hbefore hmove =>
      obtain rfl := Option.mem_unique ht hbefore
      exact h.flightOk_moved hapart ht hmove.failsOnly
  · intro i g target f hg hwait hi hf
    exact h.waiting_moved ht hsteps hapart hg hwait hi hf
  · intro i g err hg hreturned hkey hi
    exact h.returned_moved ht hsteps hobeys hg hreturned hkey hi

end ApartInv

end Moved

/-- A call that is made, an entry that expires, or a thread that has to wait. -/
theorem ApartInv.grown (h : ApartInv cfg c) {system : System τ} {added : List (Thread τ)}
    (hthreads : system.threads = c.system.threads ++ added)
    (hgroup : system.shared.group = c.system.shared.group)
    (hentries : ∀ key e, system.shared.entries key = some e → c.system.shared.entries key = some e)
    (hadded : ∀ t ∈ added, (∃ m, t = .mutation m) ∨ ∃ cache key,
      t = .get (newGet cache key c.system.clock)) : ApartInv cfg { c with system } := by
  have hlength : c.system.threads.length ≤ system.threads.length := by simp [hthreads]
  have hget : ∀ (i : Nat) (g : GetCall τ), system.threads[i]? = some (.get g) →
      c.system.threads[i]? = some (.get g) ∨ ∃ cache key, g = newGet cache key c.system.clock := by
    intro i g hg
    rw [hthreads] at hg
    rcases getElem?_added hg with hbefore | hnew
    · exact .inl hbefore
    · rcases hadded _ hnew with ⟨m, hm⟩ | ⟨cache, key, hnew⟩
      · cases hm
      · exact .inr ⟨cache, key, Thread.get.inj hnew⟩
  have hflight : ∀ (j : Nat) (f : Flight τ), system.threads[j]? = some (.flight f) →
      c.system.threads[j]? = some (.flight f) := by
    intro j f hf
    rw [hthreads] at hf
    rcases getElem?_added hf with hbefore | hnew
    · exact hbefore
    · rcases hadded _ hnew with ⟨m, hm⟩ | ⟨cache, key, hnew⟩
      · cases hm
      · cases hnew
  have hnewWait : ∀ cache key target, (newGet cache key c.system.clock : GetCall τ).phase ≠
      .waiting target := by
    intro cache key target hp
    unfold newGet at hp
    split at hp <;> cases hp
  refine ⟨fun cache key target hg => ?_, fun i g target hg hwait => ?_, fun key e he =>
    h.entry key e (hentries key e he),
    fun j f hf => ?_, fun i g target f hg hwait hi hf => ?_, fun i g err hg hreturned hkey hi => ?_⟩
  · rw [hgroup] at hg
    exact (h.group cache key target hg).trans_le hlength
  · rcases hget i g hg with hbefore | ⟨cache, key, rfl⟩
    · exact (h.waits i g target hbefore hwait).trans_le hlength
    · exact absurd hwait (hnewWait cache key target)
  · obtain ⟨hfailed, hload, henvelope⟩ := h.flight j f (hflight j f hf)
    exact ⟨hfailed, hload, henvelope⟩
  · rcases hget i g hg with hbefore | ⟨cache, key, rfl⟩
    · obtain ⟨hrunning, hdone⟩ := h.waiting i g target f hbefore hwait hi (hflight target f hf)
      exact ⟨hrunning, hdone⟩
    · exact absurd hwait (hnewWait cache key target)
  · rcases hget i g hg with hbefore | ⟨cache, key, rfl⟩
    · exact h.returned i g err hbefore hreturned hkey hi
    · unfold newGet at hreturned hkey
      rw [if_pos hkey] at hreturned
      cases hreturned

theorem ApartInv.step (h : ApartInv cfg c) {o : Occurrence τ} (hobeys : c.Obeys o)
    (hapart : c.Apart cfg o) : ApartInv cfg (c.exec sf cfg o).2 := by
  have hidle : ApartInv cfg { c with system := { c.system with clock := c.system.clock + 1 } } :=
    h.grown (List.append_nil _).symm rfl (fun _ _ he => he) nofun
  cases o with
  | cancel caller => exact h.cancel hapart
  | input i =>
    cases i with
    | get cache key =>
      exact h.grown rfl rfl (fun _ _ he => he) fun t ht =>
        .inr ⟨cache, key, List.mem_singleton.mp ht⟩
    | mutate cache kind keys =>
      exact h.grown rfl rfl (fun _ _ he => he) fun t ht => .inl ⟨_, List.mem_singleton.mp ht⟩
    | expire key =>
      exact h.grown (List.append_nil _).symm rfl (fun _ _ he => Shared.entries_delete he) nofun
    | step index answer =>
      simp only [exec]
      split
      next ht =>
        rw [System.exec, ht]
        exact hidle
      next t ht =>
        split
        next hstep =>
          rw [System.exec, ht, Option.bind_some, hstep]
          exact hidle
        next move hstep =>
          have hsteps := exec_steps sf cfg c.system (.step index answer)
          simp only [System.exec, ht, Option.bind_some, hstep] at hsteps
          exact h.moved ht hsteps hobeys hapart

theorem apartInv_of_run {history : List (Event (Callers τ) (Occurrence τ) Unit)}
    (h : ((machine sf cfg).restrict (Apart cfg)).Run history c) : ApartInv cfg c := by
  refine h.invariant (I := fun _ c => ApartInv cfg c) ?_ ?_
  · rintro c rfl
    exact .new
  · intro history c o hinv hmay
    exact hinv.step hmay.1 hmay.2

/-- **Callers are isolated.** If the callers stay apart, a call of `Get` whose context is live
returns an error only if a failure other than a done context lies behind it. -/
theorem error_excused {history : List (Event (Callers τ) (Occurrence τ) Unit)}
    (hrun : ((machine sf cfg).restrict (Apart cfg)).Run history c) {i : Nat} {g : GetCall τ}
    {err : Error} (hg : c.system.threads[i]? = some (.get g)) (hkey : validateKey g.key = true)
    (hreturned : g.phase = .returned (.error err)) (hlive : c.done i = false) :
    c.excused i = true :=
  (apartInv_of_run hrun).returned i g err hg hreturned hkey hlive

instance (history : List (Event (Callers τ) (Occurrence τ) Unit)) (o : Occurrence τ) :
    Decidable ((machine sf cfg).may history c o) :=
  inferInstanceAs (Decidable (c.Obeys o))

instance (history : List (Event (Callers τ) (Occurrence τ) Unit)) (o : Occurrence τ) :
    Decidable (((machine sf cfg).restrict (Apart cfg)).may history c o) :=
  inferInstanceAs (Decidable (c.Obeys o ∧ c.Apart cfg o))

end Callers

namespace Coalesced

open OneKey

/-- The thread takes so many steps. -/
def steps (index count : Nat) : List (Occurrence (List UInt8)) :=
  List.replicate count (.input (.step index fine))

/-- Backend and loader return an error. -/
def failing : Answer (List UInt8) := ⟨.fail (.other "failed") false, .error (.other "failed"), none⟩

/-- Two calls of `Get` share a flight; the context of the second one is done while the loader runs,
and then the loader fails. -/
def apart : List (Occurrence (List UInt8)) :=
  List.flatten [[.input (.get 0 "k"), .input (.get 0 "k")], steps 0 2, steps 1 2,
    steps 2 4, [.cancel 1], [.input (.step 2 failing)], steps 2 1, steps 0 1]

/-- Two calls of `Get` share a flight; the context of the first one is done while the loader
runs. -/
def shared : List (Occurrence (List UInt8)) :=
  List.flatten [[.input (.get 0 "k"), .input (.get 0 "k")], steps 0 2, steps 1 2,
    steps 2 4, [.cancel 0], List.replicate 2 (.input (.step 2 failing)), steps 1 1]

/-- The callers of one key. -/
abbrev callers : Machine (Callers (List UInt8)) (Occurrence (List UInt8)) Unit :=
  Callers.machine .map config

/-- Callers that do not share their contexts. -/
abbrev apartCallers : Machine (Callers (List UInt8)) (Occurrence (List UInt8)) Unit :=
  callers.restrict (Callers.Apart config)

theorem evaluated : (apartCallers.Allows [] .new apart ∧
      (apartCallers.final .new apart).system.threads[0]? =
        some (.get ⟨0, "k", 0, .returned (.error (.other "failed"))⟩) ∧
      (apartCallers.final .new apart).done 0 = false) ∧
    callers.Allows [] .new shared ∧
    (callers.final .new shared).system.threads[1]? =
      some (.get ⟨0, "k", 1, .returned (.error (.other "failed"))⟩) ∧
    (callers.final .new shared).done 1 = false ∧
      (callers.final .new shared).excused 1 = false := by
  decide +kernel

/-- The first caller has an excuse: its loader has failed. -/
theorem loader_failed :
    apartCallers.Run ([] ++ apartCallers.trace .new apart) (apartCallers.final .new apart) ∧
      (apartCallers.final .new apart).excused 0 = true := by
  obtain ⟨⟨hallows, hg, hlive⟩, -⟩ := evaluated
  have hrun := Machine.Run.extend (.init rfl) hallows
  exact ⟨hrun, Callers.error_excused hrun hg validateKey_key rfl hlive⟩

/-- The second caller returns the error of the flight although its own context is live; nothing has
failed but the context of the first caller. -/
theorem canceled_by_another :
    ∃ (history : List (Event (Callers (List UInt8)) (Occurrence (List UInt8)) Unit))
    (c : Callers (List UInt8)) (g : GetCall (List UInt8)) (err : Error),
    callers.Run history c ∧ c.system.threads[1]? = some (.get g) ∧
      validateKey g.key = true ∧
      g.phase = .returned (.error err) ∧ c.done 1 = false ∧ c.excused 1 = false := by
  obtain ⟨-, hallows, hg, hlive, hexcused⟩ := evaluated
  have hrun := Machine.Run.extend (.init rfl) hallows
  exact ⟨_, _, _, _, hrun, hg, validateKey_key, rfl, hlive, hexcused⟩

end Coalesced

end Keelith.Cache

import Keelith.Outbox.Settlement

/-!
# A batch and its lease

`New` checks `PublishTimeout` and the settlement timeout against `LeaseTTL` for one message, but a
batch has one lease: `LeaseUntil` is set before the claim, and its messages are published and
settled one after the other. `round_within_lease_iff`: in the worst case the messages of a batch are
settled before `LeaseUntil` exactly if the time of the claim and the timeouts of all messages fit
into `LeaseTTL`. A message that is not deliverable is settled without being published.
-/

namespace Keelith.Outbox

variable {ε : Type}

namespace Call

/-- The time at which the call returned. -/
def ended : Call ε → Time
  | .claim _ _ ended | .wait _ _ ended | .publish _ _ ended | .complete _ _ _ ended
  | .reschedule _ _ _ _ _ _ ended => ended

/-- The call publishes or settles a message. -/
def delivers : Call ε → Bool
  | .publish .. | .complete .. | .reschedule .. => true
  | _ => false

end Call

namespace Environment

/-- The publisher and the repository keep the timeouts of their contexts. -/
structure Budgeted (env : Environment ε) (d : Dispatcher (Trace ε) ε) : Prop where
  publish : ∀ trace m, ((env.publish trace m).2 : Duration) ≤ d.config.publishTimeout
  complete : ∀ trace id, ((env.complete trace id).2 : Duration) ≤ d.settlementTimeout
  reschedule : ∀ trace id next terminal reason,
    ((env.reschedule trace id next terminal reason).2 : Duration) ≤ d.settlementTimeout

/-- The next turn of the dispatcher claims this batch, in this time. -/
structure Claims (env : Environment ε) (d : Dispatcher (Trace ε) ε) (s : State ε)
    (batch : List Message) (elapsed : Nat) : Prop where
  running : env.stopped s.trace = false
  claim : env.claim s.trace (d.claimRequest s) = (.ok batch, elapsed)

variable {d : Dispatcher (Trace ε) ε} {elapsed : Nat} {env : Environment ε} {m : Message}

theorem Budgeted.settling (h : env.Budgeted d)
    (htakes : env.SettleTakes m elapsed) : (elapsed : Duration) ≤ d.settlementTimeout := by
  obtain ⟨trace, rfl⟩ | ⟨trace, next, terminal, reason, rfl⟩ := htakes
  · exact h.complete trace m.id
  · exact h.reschedule trace m.id next terminal reason

theorem Budgeted.publishing (h : env.Budgeted d) (htakes : env.PublishTakes m elapsed) :
    (elapsed : Duration) ≤ d.config.publishTimeout := by
  obtain ⟨trace, rfl⟩ := htakes
  exact h.publish trace m

end Environment

/-- The timeouts for one message. -/
def Dispatcher.cost (d : Dispatcher (Trace ε) ε) (m : Message) : Duration :=
  if m.Deliverable then d.config.publishTimeout + d.settlementTimeout else d.settlementTimeout

/-! ## Times along a batch -/

section Times

variable {d : Dispatcher (Trace ε) ε} {env : Environment ε} {start stop : Time}

variable {calls : Trace ε} {m : Message} {batch : List Message} {parts : List (Trace ε)}

theorem Paths.start_le (h : Paths d env m start calls stop) : start ≤ stop := by
  cases h <;> lia

theorem Paths.ended_le (h : Paths d env m start calls stop) :
    ∀ call ∈ calls, call.ended ≤ stop := by
  cases h <;> simp [Call.ended]

/-- The last call for a message settles it. -/
theorem Paths.exists_ended (h : Paths d env m start calls stop) :
    ∃ call ∈ calls, call.delivers = true ∧ call.ended = stop := by
  cases h with
  | invalid => exact ⟨_, .head _, rfl, rfl⟩
  | published | failed => exact ⟨_, .tail _ (.head _), rfl, rfl⟩

theorem Paths.stop_le (hbudget : env.Budgeted d)
    (h : Paths d env m start calls stop) : stop ≤ start + d.cost m := by
  cases h with
  | invalid next err settling hsettling hinvalid =>
    have := hbudget.settling hsettling
    rw [Dispatcher.cost]
    lia
  | published _ _ _ hpublishing hsettling hvalid
  | failed _ _ _ _ _ _ hpublishing hsettling hvalid =>
    have := hbudget.settling hsettling
    have := hbudget.publishing hpublishing
    rw [Dispatcher.cost]
    lia

section

variable (h : BatchPaths d env start batch parts stop)

include h

theorem BatchPaths.start_le : start ≤ stop := by
  induction h with
  | nil => exact le_rfl
  | cons hpath _ ih => exact hpath.start_le.trans ih

theorem BatchPaths.ended_le : ∀ call ∈ parts.flatten, call.ended ≤ stop := by
  induction h with
  | nil => simp
  | cons hpath hrest ih =>
    intro call hcall
    rcases List.mem_append.mp hcall with hcall | hcall
    · exact (hpath.ended_le call hcall).trans hrest.start_le
    · exact ih call hcall

theorem BatchPaths.exists_ended (hbatch : batch ≠ []) :
    ∃ call ∈ parts.flatten, call.delivers = true ∧ call.ended = stop := by
  induction h with
  | nil => exact absurd rfl hbatch
  | @cons start next stop m messages calls parts hpath hrest ih =>
    cases hrest with
    | nil =>
      obtain ⟨call, hcall, hlast⟩ := hpath.exists_ended
      exact ⟨call, List.mem_append_left _ hcall, hlast⟩
    | cons =>
      obtain ⟨call, hcall, hlast⟩ := ih (by simp)
      exact ⟨call, List.mem_append_right _ hcall, hlast⟩

end

theorem BatchPaths.stop_le (hbudget : env.Budgeted d)
    (h : BatchPaths d env start batch parts stop) : stop ≤ start + (batch.map d.cost).sum := by
  induction h with
  | nil => simp
  | cons hpath hrest ih =>
    have := hpath.stop_le hbudget
    rw [List.map_cons, List.sum_cons]
    lia

end Times

/-! ## The slowest environment -/

/-- The environment in which every call for a message takes the whole timeout. -/
def Environment.slowest (d : Dispatcher (Trace ε) ε) (batch : List Message) (elapsed : Nat) :
    Environment ε where
  stopped _ := false
  wait _ _ := (true, 0)
  claim _ _ := (.ok batch, elapsed)
  order _ m := ⟨m.headers.keys.sort (· ≤ ·), Finset.sort_nodup _ _, fun key => by
    rw [Finset.mem_sort, Finmap.mem_keys]⟩
  publish _ _ := (none, d.config.publishTimeout.toNat)
  complete _ _ := (none, d.settlementTimeout.toNat)
  reschedule _ _ _ _ _ := (none, d.settlementTimeout.toNat)

section Slowest

variable {d : Dispatcher (Trace ε) ε} {batch : List Message} {elapsed : Nat}

theorem publishTimeout_toNat : (d.config.publishTimeout.toNat : Duration) =
    d.config.publishTimeout :=
  Int.toNat_of_nonneg d.budgets.publishTimeout.le

theorem settlementTimeout_toNat : (d.settlementTimeout.toNat : Duration) = d.settlementTimeout :=
  Int.toNat_of_nonneg d.settlementTimeout_nonneg

theorem slowest_budgeted : (Environment.slowest d batch elapsed).Budgeted d where
  publish _ _ := publishTimeout_toNat.le
  complete _ _ := settlementTimeout_toNat.le
  reschedule _ _ _ _ _ := settlementTimeout_toNat.le

variable {m : Message}

theorem slowest_settling {settling : Nat}
    (h : (Environment.slowest d batch elapsed).SettleTakes m settling) :
    (settling : Duration) = d.settlementTimeout := by
  obtain ⟨_, rfl⟩ | ⟨_, _, _, _, rfl⟩ := h <;> exact settlementTimeout_toNat

theorem slowest_publishing {publishing : Nat}
    (h : (Environment.slowest d batch elapsed).PublishTakes m publishing) :
    (publishing : Duration) = d.config.publishTimeout := by
  obtain ⟨_, rfl⟩ := h
  exact publishTimeout_toNat

theorem Paths.stop_eq {calls : Trace ε} {start stop : Time}
    (h : Paths d (Environment.slowest d batch elapsed) m start calls stop) :
    stop = start + d.cost m := by
  cases h with
  | invalid next err settling hsettling hinvalid =>
    rw [slowest_settling hsettling, Dispatcher.cost, if_neg hinvalid]
  | published _ _ _ hpublishing hsettling hvalid
  | failed _ _ _ _ _ _ hpublishing hsettling hvalid =>
    rw [slowest_settling hsettling, slowest_publishing hpublishing, Dispatcher.cost,
      if_pos hvalid, add_assoc]

theorem BatchPaths.stop_eq {messages : List Message} {parts : List (Trace ε)} {start stop : Time}
    (h : BatchPaths d (Environment.slowest d batch elapsed) start messages parts stop) :
    stop = start + (messages.map d.cost).sum := by
  induction h with
  | nil => simp
  | cons hpath hrest ih =>
    rw [ih, hpath.stop_eq, List.map_cons, List.sum_cons, add_assoc]

end Slowest

/-! ## The turn that claims a batch -/

namespace Dispatcher

variable (d : Dispatcher (Trace ε) ε)

/-- In the next turn of the loop, every message of the batch is published and settled before
`LeaseUntil`. -/
def WithinLease (env : Environment ε) (s : State ε) : Prop :=
  ∀ call ∈ (d.round env s).trace.drop s.trace.length,
    call.delivers = true → call.ended < (d.claimRequest s).leaseUntil

variable {d} {env : Environment ε} {s : State ε} {batch : List Message} {elapsed : Nat}

/-- The calls of a turn that claims messages. -/
theorem round_batch (hclaims : env.Claims d s batch elapsed)
    (hlimit : batch.length ≤ d.config.batchSize) (hbatch : batch ≠ []) :
    ∃ parts stop, BatchPaths d env (s.clock + elapsed) batch parts stop ∧
      (d.round env s).trace.drop s.trace.length =
        .claim (d.claimRequest s) (.ok batch) (s.clock + elapsed) :: parts.flatten := by
  have hround : d.round env s = d.processBatch env batch
      { s.returns elapsed (.claim (d.claimRequest s) (.ok batch)) with
        consecutiveRepositoryFailures := 0 } := by
    have hlength : ¬ batch.length = 0 := fun h => hbatch (List.length_eq_zero_iff.mp h)
    simp [round, hclaims.running, hclaims.claim, handleClaim, not_lt.mpr hlimit, hlength]
  rw [hround, processBatch]
  obtain ⟨parts, hparts, htrace, -⟩ := d.foldl_process env batch
    { s.returns elapsed (.claim (d.claimRequest s) (.ok batch)) with
      consecutiveRepositoryFailures := 0, claimed := _ }
  refine ⟨parts, _, hparts, ?_⟩
  rw [htrace]
  simp [State.returns]

theorem round_empty (hclaims : env.Claims d s [] elapsed) :
    ∀ call ∈ (d.round env s).trace.drop s.trace.length, call.delivers = false := by
  have hbudget := d.budgets.batchSize
  have hround : d.round env s = env.waitOrFinish d.config.pollInterval
      { s.returns elapsed (.claim (d.claimRequest s) (.ok [])) with
        consecutiveRepositoryFailures := 0 } := by
    simp [round, hclaims.running, hclaims.claim, handleClaim, not_lt.mpr hbudget.le]
  rw [hround]
  unfold Environment.waitOrFinish
  split
  · split <;> simp [State.returns, State.finish, Call.delivers]
  · dsimp only
    split <;> simp [State.returns, State.finish, Call.delivers]

/-- **A batch and its lease.** -/
theorem round_within_lease_iff (d : Dispatcher (Trace ε) ε) (s : State ε) (batch : List Message)
    (elapsed : Nat) (hlimit : batch.length ≤ d.config.batchSize) :
    (∀ env : Environment ε, env.Budgeted d → env.Claims d s batch elapsed → d.WithinLease env s) ↔
      batch = [] ∨ elapsed + (batch.map d.cost).sum < d.config.leaseTTL := by
  constructor
  · intro hall
    by_cases hbatch : batch = []
    · exact .inl hbatch
    have hclaims : (Environment.slowest d batch elapsed).Claims d s batch elapsed := ⟨rfl, rfl⟩
    obtain ⟨parts, stop, hparts, htrace⟩ := round_batch hclaims hlimit hbatch
    obtain ⟨call, hcall, hdelivers, hended⟩ := hparts.exists_ended hbatch
    have hwithin := hall _ slowest_budgeted hclaims call (htrace ▸ List.mem_cons_of_mem _ hcall)
      hdelivers
    rw [hended, hparts.stop_eq, claimRequest] at hwithin
    lia
  · rintro hfits env hbudget hclaims call hcall hdelivers
    by_cases hbatch : batch = []
    · subst hbatch
      rw [round_empty hclaims call hcall] at hdelivers
      cases hdelivers
    obtain ⟨parts, stop, hparts, htrace⟩ := round_batch hclaims hlimit hbatch
    rw [htrace] at hcall
    rcases List.mem_cons.mp hcall with rfl | hcall
    · cases hdelivers
    have hended := hparts.ended_le call hcall
    have hstop := hparts.stop_le hbudget
    rw [claimRequest]
    lia

end Dispatcher

/-! ## Two messages under the default budgets -/

namespace TwoMessages

/-- A configuration that sets no budget. -/
def config : Config (Trace Unit) Unit where
  name := "outbox"
  owner := "node"
  repository := true
  publisher := true

/-- Its dispatcher. -/
def dispatcher : Dispatcher (Trace Unit) Unit :=
  ⟨config.withDefaults, Config.budgets_of_not_overBudget (by decide)⟩

/-- `New` accepts it. -/
theorem admitted : new config = .ok dispatcher := by
  have hidentity : (!validIdentity config.name maxIDBytes ||
    !validIdentity config.owner maxIDBytes ||
      !config.repository || !config.publisher) = false := by decide
  have hbudget : config.withDefaults.overBudget = false := by decide
  simp [new, hidentity, hbudget, dispatcher]

/-- A deliverable message, claimed for the first time. -/
def first : Message := { id := "first", destination := "topic", attempts := 1 }

/-- Another one. -/
def other : Message := { id := "second", destination := "topic", attempts := 1 }

/-- The state in which the batch is claimed. -/
def start : State Unit := { clock := 0 }

theorem evaluated : (0 : Int) + ([first].map dispatcher.cost).sum < dispatcher.config.leaseTTL ∧
    (dispatcher.round (Environment.slowest dispatcher [first, other] 0) start).trace.map
        (fun call => (call.delivers, call.ended)) =
      [(false, 0), (true, 10 * second), (true, 20 * second), (true, 30 * second),
        (true, 40 * second)] := by
  decide +kernel

/-- Each message takes 20 seconds of a lease of 30 seconds: the second one is settled when the lease
is over. -/
theorem second_after_lease :
    new config = .ok dispatcher ∧ ([first, other].length : Int) ≤ dispatcher.config.batchSize ∧
      ∃ env : Environment Unit, env.Budgeted dispatcher ∧
        env.Claims dispatcher start [first, other] 0 ∧ ¬ dispatcher.WithinLease env start := by
  refine ⟨admitted, by decide, Environment.slowest dispatcher [first, other] 0, slowest_budgeted,
    ⟨rfl, rfl⟩, ?_⟩
  intro hwithin
  have hmem : (true, 40 * second) ∈
      (dispatcher.round (Environment.slowest dispatcher [first, other] 0) start).trace.map
        (fun call => (call.delivers, call.ended)) := by
    rw [evaluated.2]
    decide
  obtain ⟨call, hcall, hpair⟩ := List.mem_map.mp hmem
  obtain ⟨hdelivers, hended⟩ := Prod.mk.inj hpair
  have hlate := hwithin call hcall hdelivers
  rw [hended] at hlate
  revert hlate
  decide

/-- One message fits. -/
theorem first_within_lease : ([first].length : Int) ≤ dispatcher.config.batchSize ∧
      ∀ env : Environment Unit, env.Budgeted dispatcher → env.Claims dispatcher start [first] 0 →
        dispatcher.WithinLease env start :=
  ⟨by decide, (Dispatcher.round_within_lease_iff dispatcher start [first] 0 (by decide)).mpr
    (.inr evaluated.1)⟩

end TwoMessages

end Keelith.Outbox

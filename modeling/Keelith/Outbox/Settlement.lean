import Keelith.Outbox.Dispatcher

/-!
# Every claimed message is settled once

The calls of a run are waits, claims that give no batch, and batches: a claim followed by the calls
for its messages, in their order (`Dispatches`). The calls for a message are at most publications of
it and then its one settlement (`SettledOnce`).

`Paths` lists the calls that `process` makes for one message, with their times. Each message of a
batch adds one of these lists to the trace and one to the `tally` of settled messages
(`process_handles`); `run_dispatches` carries both over a run.
-/

namespace Keelith.Outbox

variable {ε : Type}

/-! ## Statements about calls -/

namespace Call

/-- A settlement that the repository refused. -/
def unsettled : Call ε → Bool
  | .complete _ _ err _ | .reschedule _ _ _ _ _ err _ => err.isSome
  | _ => false

/-- The messages of the batch that a claim gave. -/
def batched (batchSize : Int) : Call ε → Nat
  | .claim _ (.ok messages) _ => if batchSize < messages.length then 0 else messages.length
  | _ => 0

end Call

/-- The publisher returned nil for the message. -/
def Published (m : Message) (calls : Trace ε) : Prop := ∃ ended, .publish m none ended ∈ calls

/-- The call that settles a message, which was published with success or not. -/
inductive Settlement (d : Dispatcher (Trace ε) ε) (m : Message) (success : Prop) :
    Call ε → Prop where
  | complete (err : Option String) (ended : Time) (hsuccess : success) :
      Settlement d m success (.complete d.config.owner m.id err ended)
  | reschedule (next : Time) (terminal : Bool) (reason : String) (err : Option String)
      (ended : Time)
      (hfailure : ¬ success)
      (hterminal : terminal = true ↔ ¬ m.Deliverable ∨ d.config.maxAttempts ≤ m.attempts)
      (hreason : validIdentity reason 64 = true) :
      Settlement d m success (.reschedule d.config.owner m.id next terminal reason err ended)

/-- The message is published, if at all, and then settled by the right call. -/
def SettledOnce (d : Dispatcher (Trace ε) ε) (m : Message) (calls : Trace ε) : Prop :=
  ∃ publishes call, calls = publishes ++ [call] ∧
    (∀ c ∈ publishes, ∃ err ended, c = .publish m err ended) ∧
    Settlement d m (m.Deliverable ∧ Published m publishes) call

/-- A call between two batches. -/
inductive Idle (d : Dispatcher (Trace ε) ε) : Call ε → Prop where
  | wait (delay : Duration) (fired : Bool) (ended : Time) : Idle d (.wait delay fired ended)
  | failed (request : ClaimRequest) (err : String) (ended : Time) :
      Idle d (.claim request (.error err) ended)
  | exceeding (request : ClaimRequest) (messages : List Message) (ended : Time)
      (hlimit : d.config.batchSize < messages.length) : Idle d (.claim request (.ok messages) ended)

/-- The calls of a dispatcher between two batches. -/
inductive Dispatches (d : Dispatcher (Trace ε) ε) : Trace ε → Prop where
  | start : Dispatches d []
  | idle {trace : Trace ε} {call : Call ε} (hbefore : Dispatches d trace) (hidle : Idle d call) :
      Dispatches d (trace ++ [call])
  | batch {trace : Trace ε} (request : ClaimRequest) {messages : List Message} (ended : Time)
      {parts : List (Trace ε)} (hbefore : Dispatches d trace)
      (hlimit : messages.length ≤ d.config.batchSize)
      (hparts : List.Forall₂ (SettledOnce d) messages parts) :
      Dispatches d (trace ++ .claim request (.ok messages) ended :: parts.flatten)

namespace State

/-- The settlements that the repository refused, as a counter. -/
def failedSettlements (s : State ε) : UInt64 := UInt64.ofNat (s.trace.countP Call.unsettled)

/-- The messages of all batches in the trace. -/
def batched (d : Dispatcher (Trace ε) ε) (s : State ε) : Nat :=
  (s.trace.map (Call.batched d.config.batchSize)).sum

/-- Settled messages, by the counters, and refused settlements. -/
def tally (s : State ε) : UInt64 := s.published + s.rescheduled + s.terminal + s.failedSettlements

end State

/-! ## One message -/

/-- Publishing the message takes this time after some calls. -/
def Environment.PublishTakes (env : Environment ε) (m : Message) (elapsed : Nat) : Prop :=
  ∃ trace, (env.publish trace m).2 = elapsed

/-- Settling the message takes this time after some calls. -/
def Environment.SettleTakes (env : Environment ε) (m : Message) (elapsed : Nat) : Prop :=
  (∃ trace, (env.complete trace m.id).2 = elapsed) ∨
    ∃ trace next terminal reason, (env.reschedule trace m.id next terminal reason).2 = elapsed

/-- The calls of `process` for a message, from the time `start` to the time at the end. -/
inductive Paths (d : Dispatcher (Trace ε) ε) (env : Environment ε) (m : Message) (start : Time) :
    Trace ε → Time → Prop where
  | invalid (next : Time) (err : Option String) (settling : Nat)
      (hsettling : env.SettleTakes m settling)
      (hinvalid : ¬ m.Deliverable) :
      Paths d env m start
        [.reschedule d.config.owner m.id next true "invalid_message" err (start + settling)]
          (start + settling)
  | published (err : Option String) (publishing settling : Nat)
      (hpublishing : env.PublishTakes m publishing)
      (hsettling : env.SettleTakes m settling) (hvalid : m.Deliverable) :
      Paths d env m start
        [.publish m none (start + publishing),
          .complete d.config.owner m.id err (start + publishing + settling)]
        (start + publishing + settling)
  | failed (failure : PublishError ε) (reason : String) (next : Time) (err : Option String)
      (publishing settling : Nat) (hpublishing : env.PublishTakes m publishing)
      (hsettling : env.SettleTakes m settling) (hvalid : m.Deliverable)
      (hreason : validIdentity reason 64 = true) :
      Paths d env m start
        [.publish m (some failure) (start + publishing),
          .reschedule d.config.owner m.id next (d.config.maxAttempts ≤ m.attempts) reason err
            (start + publishing + settling)]
        (start + publishing + settling)

variable {calls : Trace ε} {d : Dispatcher (Trace ε) ε} {env : Environment ε} {start stop : Time}
  {call : Call ε}

theorem Paths.settledOnce {m : Message} (h : Paths d env m start calls stop) :
    SettledOnce d m calls := by
  cases h with
  | invalid next err settling hsettling hinvalid =>
    refine ⟨[], _, rfl, by simp, .reschedule _ _ _ _ _ (fun h => hinvalid h.1) ?_ (by decide)⟩
    exact iff_of_true rfl (.inl hinvalid)
  | published err publishing settling hpublishing hsettling hvalid =>
    exact ⟨[_], _, rfl, by simp, .complete _ _ ⟨hvalid, start + publishing, by simp⟩⟩
  | failed failure reason next err publishing settling hpublishing hsettling hvalid hreason =>
    refine ⟨[_], _, rfl, by simp, .reschedule _ _ _ _ _ ?_ ?_ hreason⟩
    · rintro ⟨-, _, hpublished⟩
      simp at hpublished
    · simp [hvalid]

/-- The calls for a message claim nothing. -/
theorem SettledOnce.batched {m : Message} (h : SettledOnce d m calls) (batchSize : Int) :
    (calls.map (Call.batched batchSize)).sum = 0 := by
  obtain ⟨publishes, call, rfl, hpublishes, hsettles⟩ := h
  refine List.sum_eq_zero fun n hn => ?_
  obtain ⟨c, hc, rfl⟩ := List.mem_map.mp hn
  rcases List.mem_append.mp hc with hc | hc
  · obtain ⟨err, ended, rfl⟩ := hpublishes c hc
    rfl
  · obtain rfl := List.mem_singleton.mp hc
    cases hsettles <;> rfl

/-- `after` follows `s` by these calls, of which one settles a message. -/
structure Handles (s after : State ε) (calls : Trace ε) : Prop where
  trace : after.trace = s.trace ++ calls
  claimed : after.claimed = s.claimed
  tally : after.tally = s.tally + 1

/-- A settlement that the repository accepted is counted by one of the counters; one that it
refused, in the trace. -/
theorem Handles.of_call {s after : State ε} (htrace : after.trace = s.trace ++ [call])
    (hclaimed : after.claimed = s.claimed)
    (hcounters : after.published + after.rescheduled + after.terminal +
      (if call.unsettled then 1 else 0) =
      s.published + s.rescheduled + s.terminal + 1) : Handles s after [call] where
  trace := htrace
  claimed := hclaimed
  tally := by
    have hfailed : after.failedSettlements = s.failedSettlements +
        if call.unsettled then 1 else 0 := by
      rw [State.failedSettlements, htrace, List.countP_append, List.countP_singleton,
        UInt64.ofNat_add]
      cases call.unsettled <;> rfl
    rw [State.tally, State.tally]
    grind

/-- A call and an update of counters of failures before the settlement. -/
theorem Handles.after_call {s before after : State ε}
    (h : Handles before after calls) (htrace : before.trace = s.trace ++ [call])
    (hclaimed : before.claimed = s.claimed) (hcall : call.unsettled = false)
    (hcounters : before.published = s.published ∧ before.rescheduled = s.rescheduled ∧
      before.terminal = s.terminal) : Handles s after (call :: calls) where
  trace := by rw [h.trace, htrace, List.append_assoc, List.singleton_append]
  claimed := h.claimed.trans hclaimed
  tally := by
    have htally : before.tally = s.tally := by
      simp [State.tally, State.failedSettlements, htrace, hcall, hcounters]
    rw [h.tally, htally]

namespace Dispatcher

variable (d : Dispatcher (Trace ε) ε) (env : Environment ε)

theorem settleFailure_handles (m : Message) (terminal : Bool) (reason : String) (s : State ε) :
    ∃ next err elapsed, env.SettleTakes m elapsed ∧
      (d.settleFailure env m terminal reason s).clock = s.clock + elapsed ∧
      Handles s (d.settleFailure env m terminal reason s)
        [.reschedule d.config.owner m.id next terminal reason err (s.clock + elapsed)] := by
  unfold settleFailure
  generalize d.next m terminal s.clock = next
  have htakes : env.SettleTakes m (env.reschedule s.trace m.id next terminal reason).2 :=
    .inr ⟨_, _, _, _, rfl⟩
  generalize env.reschedule s.trace m.id next terminal reason = answer at htakes
  obtain ⟨err, elapsed⟩ := answer
  cases err with
  | some err => exact ⟨next, some err, elapsed, htakes, rfl, .of_call rfl rfl rfl⟩
  | none =>
    refine ⟨next, none, elapsed, htakes, ?_⟩
    cases terminal <;> exact ⟨rfl,
      .of_call rfl rfl (by simp [State.returns, Call.unsettled]; grind)⟩

theorem settleSuccess_handles (m : Message) (s : State ε) :
    ∃ err elapsed, env.SettleTakes m elapsed ∧ (d.settleSuccess env m s).clock = s.clock + elapsed ∧
      Handles s (d.settleSuccess env m s)
        [.complete d.config.owner m.id err (s.clock + elapsed)] := by
  unfold settleSuccess
  have htakes : env.SettleTakes m (env.complete s.trace m.id).2 := .inl ⟨_, rfl⟩
  generalize env.complete s.trace m.id = answer at htakes
  obtain ⟨err, elapsed⟩ := answer
  cases err with
  | some err => exact ⟨some err, elapsed, htakes, rfl, .of_call rfl rfl rfl⟩
  | none =>
    exact ⟨none, elapsed, htakes, rfl,
      .of_call rfl rfl (by simp [State.returns, Call.unsettled]; grind)⟩

theorem deliver_handles {m : Message} (hvalid : m.Deliverable) (s : State ε) :
    ∃ calls, Paths d env m s.clock calls (d.deliver env m s).clock ∧
      Handles s (d.deliver env m s) calls := by
  unfold deliver
  have htakes : env.PublishTakes m (env.publish s.trace m).2 := ⟨_, rfl⟩
  generalize env.publish s.trace m = answer at htakes
  obtain ⟨err, publishing⟩ := answer
  cases err with
  | none =>
    obtain ⟨err, settling, hsettling, hclock, h⟩ := d.settleSuccess_handles env m
      { s.returns publishing (.publish m none) with consecutivePublisherFailures := 0 }
    refine ⟨_, ?_, h.after_call rfl rfl rfl ⟨rfl, rfl, rfl⟩⟩
    rw [hclock]
    exact .published err publishing settling htakes hsettling hvalid
  | some failure =>
    obtain ⟨next, err, settling, hsettling, hclock, h⟩ := d.settleFailure_handles env m
      (d.config.maxAttempts ≤ m.attempts) (d.failureReason _ failure) _
    refine ⟨_, ?_, h.after_call rfl rfl rfl ⟨rfl, rfl, rfl⟩⟩
    rw [hclock]
    exact .failed failure _ next err publishing settling htakes hsettling hvalid
      (d.failureReason_valid _ failure)

/-- The step: `process` makes the calls of one path. -/
theorem process_handles (m : Message) (s : State ε) :
    ∃ calls, Paths d env m s.clock calls (d.process env s m).clock ∧
      Handles s (d.process env s m) calls := by
  have hiff : m.validate (env.order s.trace m).1 ≠ .ok () ∨ m.attempts ≤ 0 ↔ ¬ m.Deliverable := by
    rw [Message.Deliverable, not_and_or, ne_eq, Message.validate_ok_iff (env.order s.trace m).2,
      not_lt]
  unfold process
  simp only [hiff]
  by_cases hvalid : m.Deliverable
  · rw [if_neg (not_not.mpr hvalid)]
    obtain ⟨calls, hpath, h⟩ := d.deliver_handles env hvalid { s with inflight := s.inflight + 1 }
    exact ⟨calls, hpath, h.trace, h.claimed, h.tally⟩
  · rw [if_pos hvalid]
    obtain ⟨next, err, settling, hsettling, hclock, h⟩ :=
      d.settleFailure_handles env m true "invalid_message" s
    rw [hclock]
    exact ⟨_, .invalid next err settling hsettling hvalid, h⟩

end Dispatcher

/-! ## Batches and runs -/

/-- The calls for the messages of a batch, one after the other. -/
inductive BatchPaths (d : Dispatcher (Trace ε) ε) (env : Environment ε) :
    Time → List Message → List (Trace ε) → Time → Prop where
  | nil (start : Time) : BatchPaths d env start [] [] start
  | cons {start next stop : Time} {m : Message} {messages : List Message} {calls : Trace ε}
      {parts : List (Trace ε)} (hpath : Paths d env m start calls next)
      (hrest : BatchPaths d env next messages parts stop) :
      BatchPaths d env start (m :: messages) (calls :: parts) stop

theorem BatchPaths.settledOnce
    {messages : List Message} {parts : List (Trace ε)}
    (h : BatchPaths d env start messages parts stop) :
    List.Forall₂ (SettledOnce d) messages parts := by
  induction h with
  | nil => exact .nil
  | cons hpath _ ih => exact .cons hpath.settledOnce ih

theorem batched_parts {messages : List Message} {parts : List (Trace ε)}
    (h : List.Forall₂ (SettledOnce d) messages parts) (batchSize : Int) :
    (parts.flatten.map (Call.batched batchSize)).sum = 0 := by
  induction h with
  | nil => rfl
  | cons hsettled _ ih =>
    rw [List.flatten_cons, List.map_append, List.sum_append, hsettled.batched, ih]

namespace Dispatcher

variable (d : Dispatcher (Trace ε) ε) (env : Environment ε)

theorem foldl_process (messages : List Message) (s : State ε) :
    ∃ parts, BatchPaths d env s.clock messages parts (messages.foldl (d.process env) s).clock ∧
      (messages.foldl (d.process env) s).trace = s.trace ++ parts.flatten ∧
      (messages.foldl (d.process env) s).claimed = s.claimed ∧
      (messages.foldl (d.process env) s).tally = s.tally + UInt64.ofNat messages.length := by
  induction messages generalizing s with
  | nil => exact ⟨[], .nil _, by simp, rfl, by simp⟩
  | cons m messages ih =>
    obtain ⟨calls, hpath, h⟩ := d.process_handles env m s
    obtain ⟨parts, hparts, htrace, hclaimed, htally⟩ := ih (d.process env s m)
    refine ⟨calls :: parts, .cons hpath hparts, ?_, ?_, ?_⟩
    · rw [List.foldl_cons, htrace, h.trace, List.flatten_cons, List.append_assoc]
    · rw [List.foldl_cons, hclaimed, h.claimed]
    · rw [List.foldl_cons, htally, h.tally, List.length_cons, UInt64.ofNat_add]
      grind

/-- Between two batches: the calls so far, and every message of a batch in one of the counters. -/
structure Settled (s : State ε) : Prop where
  calls : Dispatches d s.trace
  claimed : s.claimed = UInt64.ofNat (s.batched d)
  counted : s.claimed = s.tally

variable {d}

/-- A call between two batches. -/
theorem Settled.idle {s after : State ε} (h : d.Settled s) (hidle : Idle d call)
    (htrace : after.trace = s.trace ++ [call]) (hclaimed : after.claimed = s.claimed)
    (hcounters : after.published = s.published ∧ after.rescheduled = s.rescheduled ∧
      after.terminal = s.terminal) : d.Settled after where
  calls := htrace ▸ .idle h.calls hidle
  claimed := by
    have hcall : call.batched d.config.batchSize = 0 := by
      cases hidle with
      | exceeding request messages ended hlimit => exact if_pos hlimit
      | wait | failed => rfl
    rw [hclaimed, h.claimed]
    simp [State.batched, htrace, hcall]
  counted := by
    have hcall : call.unsettled = false := by cases hidle <;> rfl
    rw [hclaimed, h.counted]
    simp [State.tally, State.failedSettlements, htrace, hcall, hcounters]

variable {s : State ε}

theorem Settled.waitOrFinish (delay : Duration) (h : d.Settled s) :
    d.Settled (env.waitOrFinish delay s) := by
  unfold Environment.waitOrFinish
  split
  · split
    · exact ⟨h.calls, h.claimed, h.counted⟩
    · exact h
  · obtain ⟨fired, elapsed⟩ := env.wait s.trace delay
    cases fired <;> exact h.idle (.wait delay _ _) rfl rfl ⟨rfl, rfl, rfl⟩

/-- A claim within the limit, followed by the calls for its messages. -/
theorem Settled.batch {messages : List Message} (h : d.Settled s) (elapsed : Nat)
    (hlimit : messages.length ≤ d.config.batchSize) :
    d.Settled (d.processBatch env messages
      { s.returns elapsed (.claim (d.claimRequest s) (.ok messages)) with
        consecutiveRepositoryFailures := 0 }) := by
  unfold processBatch
  generalize hbefore : ({ s.returns elapsed (.claim (d.claimRequest s) (.ok messages)) with
    consecutiveRepositoryFailures := 0, claimed := _ } : State ε) = before
  obtain ⟨parts, hparts, htrace, hclaimed, htally⟩ := d.foldl_process env messages before
  subst hbefore
  constructor
  · rw [htrace]
    simpa [State.returns] using
      Dispatches.batch (d.claimRequest s) (s.clock + elapsed) h.calls hlimit hparts.settledOnce
  · rw [hclaimed, State.batched, htrace, List.map_append, List.sum_append,
      batched_parts hparts.settledOnce]
    simp [State.returns, h.claimed, State.batched, Call.batched, not_lt.mpr hlimit]
  · rw [hclaimed, htally, State.returns, h.counted]
    simp [State.tally, State.failedSettlements, Call.unsettled]

theorem Settled.handleClaim (messages : List Message) (h : d.Settled s) (elapsed : Nat) :
    d.Settled (d.handleClaim env messages
      (s.returns elapsed (.claim (d.claimRequest s) (.ok messages)))) := by
  unfold Dispatcher.handleClaim
  split
  next hlimit => exact h.idle (.exceeding _ messages _ hlimit) rfl rfl ⟨rfl, rfl, rfl⟩
  next hlimit =>
    split
    next hempty =>
      rw [List.length_eq_zero_iff] at hempty
      subst hempty
      have hbatch := h.batch env elapsed (not_lt.mp hlimit)
      exact Settled.waitOrFinish env _ (by simpa [processBatch] using hbatch)
    next => exact h.batch env elapsed (not_lt.mp hlimit)

theorem Settled.round (h : d.Settled s) : d.Settled (d.round env s) := by
  unfold Dispatcher.round
  split
  · exact ⟨h.calls, h.claimed, h.counted⟩
  · obtain ⟨answer, elapsed⟩ := env.claim s.trace (d.claimRequest s)
    cases answer with
    | error err =>
      have hclaim : d.Settled (s.returns elapsed (.claim (d.claimRequest s) (.error err))) :=
        h.idle (.failed _ err _) rfl rfl ⟨rfl, rfl, rfl⟩
      dsimp only
      split
      · exact ⟨hclaim.calls, hclaim.claimed, hclaim.counted⟩
      · exact Settled.waitOrFinish env _ ⟨hclaim.calls, hclaim.claimed, hclaim.counted⟩
    | ok messages => exact h.handleClaim env messages elapsed

variable (d)

/-- **Every claimed message is settled once**: after any number of turns, against any environment,
the calls are those of `Dispatches`, and `Claimed` is the number of messages in the batches of these
calls, and also that of settled messages and refused settlements. -/
theorem run_dispatches (clock : Time) (n : Nat) : let s := d.run env n { clock := clock }
    Dispatches d s.trace ∧ s.claimed = UInt64.ofNat (s.batched d) ∧
      s.claimed = s.published + s.rescheduled + s.terminal + s.failedSettlements := by
  suffices hrun : ∀ s : State ε, d.Settled s → d.Settled (d.run env n s) by
    have h := hrun { clock := clock } ⟨.start, rfl, rfl⟩
    exact ⟨h.calls, h.claimed, h.counted⟩
  induction n with
  | zero => exact fun s h => h
  | succ n ih =>
    intro s h
    unfold run
    split
    · exact h
    · exact ih _ (h.round env)

end Dispatcher

end Keelith.Outbox

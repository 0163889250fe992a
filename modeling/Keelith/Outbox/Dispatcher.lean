import Keelith.Outbox.Model

/-!
# The dispatcher of the outbox

`Dispatcher.run`, `process`, `publish` and `settleFailure` of `outbox/dispatcher.go`.

The code of others is the `Environment`: what the repository, the publisher, the classifier and the
contexts answer, each a function of all calls so far, with the time that the call takes. So a
statement for every environment is one for every behaviour. Only calls take time; a panic of the
repository, which ends `run`, is not in the model.

* `State` has the counters, the clock and the calls so far (`trace`).
* `round` is one turn of the loop of `run`; `run` makes at most `n` turns. A turn ends between two
  batches.
* `Clone` copies a message; the publisher gets a value here.
-/

namespace Keelith.Outbox

/-! ## Calls -/

/-- A call of the dispatcher with its answer; `ended` is the time at which it returned. -/
inductive Call (ε : Type) where
  | claim (request : ClaimRequest) (answer : Except String (List Message)) (ended : Time)
  | wait (delay : Duration) (fired : Bool) (ended : Time)
  | publish (message : Message) (err : Option (PublishError ε)) (ended : Time)
  | complete (owner id : String) (err : Option String) (ended : Time)
  | reschedule (owner id : String) (next : Time) (terminal : Bool) (reason : String)
      (err : Option String)
      (ended : Time)
  deriving DecidableEq

/-- The calls so far. -/
abbrev Trace (ε : Type) := List (Call ε)

/-- What the code of others answers after the calls so far, and the time it takes (in
nanoseconds). -/
structure Environment (ε : Type) where
  /-- `context.Cause(pollCtx) != nil`. -/
  stopped : Trace ε → Bool
  /-- The timer of `wait` fires before the context ends. -/
  wait : Trace ε → Duration → Bool × Nat
  /-- `Repository.Claim`. -/
  claim : Trace ε → ClaimRequest → Except String (List Message) × Nat
  /-- The order in which `Message.Validate` visits the headers. -/
  order : Trace ε → (m : Message) → { order : List String // Map.Ranges order m.headers }
  /-- `Publisher.Publish`; `none` is nil. -/
  publish : Trace ε → Message → Option (PublishError ε) × Nat
  /-- `Repository.Complete`. -/
  complete : Trace ε → (id : String) → Option String × Nat
  /-- `Repository.Reschedule`. -/
  reschedule : Trace ε → (id : String) → (next : Time) → (terminal : Bool) → (reason : String) →
    Option String × Nat

/-- The mutable fields of `Dispatcher`, the clock and the calls so far. -/
structure State (ε : Type) where
  clock : Time
  trace : Trace ε := []
  finished : Bool := false
  runErr : Option Error := none
  inflight : Int := 0
  claimed : UInt64 := 0
  published : UInt64 := 0
  rescheduled : UInt64 := 0
  terminal : UInt64 := 0
  repositoryFailures : UInt64 := 0
  publisherFailures : UInt64 := 0
  consecutiveRepositoryFailures : UInt64 := 0
  consecutivePublisherFailures : UInt64 := 0

namespace State

variable {ε : Type}

/-- A call that takes `elapsed` returns. -/
def returns (s : State ε) (elapsed : Nat) (call : Time → Call ε) : State ε :=
  { s with clock := s.clock + elapsed, trace := s.trace ++ [call (s.clock + elapsed)] }

/-- The repository failed. -/
def repositoryFailed (s : State ε) : State ε :=
  { s with
    repositoryFailures := s.repositoryFailures + 1
    consecutiveRepositoryFailures := s.consecutiveRepositoryFailures + 1 }

/-- The end of `run`. -/
def finish (s : State ε) : State ε := { s with finished := true, inflight := 0 }

end State

/-- `wait`, and the loop of `run` again or its end. -/
def Environment.waitOrFinish {ε : Type} (env : Environment ε) (delay : Duration) (s : State ε) :
    State ε :=
  if delay ≤ 0 then
    if env.stopped s.trace then s.finish else s
  else
    let (fired, elapsed) := env.wait s.trace delay
    let s := s.returns elapsed (.wait delay fired)
    if fired then s else s.finish

/-! ## The functions of the dispatcher -/

namespace Dispatcher

variable {ε : Type} (d : Dispatcher (Trace ε) ε) (env : Environment ε)

/-- The time before which a message is not claimed again. -/
def next (message : Message) (terminal : Bool) (now : Time) : Time :=
  if terminal then now else now + d.retryDelay message.attempts

def settleFailure (message : Message) (terminal : Bool) (reason : String) (s : State ε) : State ε :=
  let (err, elapsed) :=
    env.reschedule s.trace message.id (d.next message terminal s.clock) terminal reason
  let s := s.returns elapsed
    (.reschedule d.config.owner message.id (d.next message terminal s.clock) terminal reason err)
  match err with
  | some _ => s.repositoryFailed
  | none =>
    if terminal then { s with consecutiveRepositoryFailures := 0, terminal := s.terminal + 1 }
    else { s with consecutiveRepositoryFailures := 0, rescheduled := s.rescheduled + 1 }

/-- `Repository.Complete` and what `process` does after it. -/
def settleSuccess (message : Message) (s : State ε) : State ε :=
  let (err, elapsed) := env.complete s.trace message.id
  let s := s.returns elapsed (.complete d.config.owner message.id err)
  match err with
  | some _ => s.repositoryFailed
  | none => { s with consecutiveRepositoryFailures := 0, published := s.published + 1 }

/-- `Dispatcher.process` from the call of the publisher to its end. -/
def deliver (message : Message) (s : State ε) : State ε :=
  let (err, elapsed) := env.publish s.trace message
  let s := s.returns elapsed (.publish message err)
  match err with
  | none => d.settleSuccess env message { s with consecutivePublisherFailures := 0 }
  | some err =>
    d.settleFailure env message (d.config.maxAttempts ≤ message.attempts)
      (d.failureReason s.trace err)
      { s with
        publisherFailures := s.publisherFailures + 1
        consecutivePublisherFailures := s.consecutivePublisherFailures + 1 }

def process (s : State ε) (message : Message) : State ε :=
  if message.validate (env.order s.trace message).1 ≠ .ok () ∨ message.attempts ≤ 0 then
    d.settleFailure env message true "invalid_message" s
  else
    let s := d.deliver env message { s with inflight := s.inflight + 1 }
    { s with inflight := s.inflight - 1 }

/-- The request of a claim. -/
def claimRequest (s : State ε) : ClaimRequest where
  owner := d.config.owner
  limit := d.config.batchSize
  leaseUntil := s.clock + d.config.leaseTTL

/-- The loop of `run` over the messages of a batch. -/
def processBatch (messages : List Message) (s : State ε) : State ε :=
  messages.foldl (d.process env) { s with claimed := s.claimed + UInt64.ofNat messages.length }

/-- What `run` does with the messages of a claim. -/
def handleClaim (messages : List Message) (s : State ε) : State ε :=
  let s := { s with consecutiveRepositoryFailures := 0 }
  if d.config.batchSize < messages.length then
    let text := s!"outbox: repository returned {messages.length} messages for limit {d.config.batchSize}"
    State.finish { s.repositoryFailed with runErr := some (.other text) }
  else if messages.length = 0 then env.waitOrFinish d.config.pollInterval s
  else d.processBatch env messages s

/-- One turn of the loop of `run`. -/
def round (s : State ε) : State ε :=
  if env.stopped s.trace then s.finish
  else
    let (answer, elapsed) := env.claim s.trace (d.claimRequest s)
    let s := s.returns elapsed (.claim (d.claimRequest s) answer)
    match answer with
    | .error _ =>
      if env.stopped s.trace then s.finish
      else env.waitOrFinish d.config.errorDelay s.repositoryFailed
    | .ok messages => d.handleClaim env messages s

/-- `Dispatcher.run`, for at most `n` turns of its loop. -/
def run : Nat → State ε → State ε
  | 0, s => s
  | n + 1, s => if s.finished then s else run n (d.round env s)

end Dispatcher

end Keelith.Outbox

import Keelith.Governance.Policy
import Keelith.Lib.Map
import Keelith.Lib.Run
import Keelith.Lib.Time
import Mathlib.Algebra.Order.Field.Rat

/-!
# Rate limits with a shared backend

`governance/ratelimit/limiter.go` and `distributed.go`: a limiter with a token bucket and a
concurrency gate, and the limiter that asks a shared backend and falls back to a local one.

- **Tokens** are exact rationals, and so are rates; times are nanoseconds.
- **Steps**: calls of `Acquire` and `Release`, one after the other, for one operation under one
  policy. What the context, the `SubjectFunc`, the backend and the clock do in a call comes with it
  (`Call`).
- The counters of `Describe` and the last error are left out.
-/

namespace Keelith.RateLimit

/-! ## The limiter -/

/-- `policy.RateLimitPolicy`. -/
abbrev RateLimitPolicy := MethodPolicy.RateLimit ℚ MethodPolicy.Val

/-- The errors. -/
inductive Error where
  /-- `ErrLimited`, with `retry-after-ms` if the backend gave one. -/
  | limited (retryAfter : Option Int)
  | unavailable
  | invalidPolicy
  | invalidSubject
  /-- `context.Cause(ctx)`. -/
  | cause
  deriving DecidableEq

/-- `validate` succeeds. -/
def validate (config : RateLimitPolicy) : Bool :=
  let hasRate := decide (config.requestsPerSecond > 0) || decide (config.burst > 0)
  !(decide (config.requestsPerSecond < 0) || decide (config.burst < 0) ||
    decide (config.maxConcurrency < 0) ||
    (hasRate && (decide (config.requestsPerSecond ≤ 0) || decide (config.burst ≤ 0))) ||
    (!hasRate && decide (config.maxConcurrency ≤ 0)))

/-- `Limiter`. -/
structure Limiter where
  initialized : Bool
  rate : ℚ
  burst : Int
  last : Time
  tokens : ℚ
  inflight : Int
  deriving DecidableEq

namespace Limiter

/-- `NewLimiter`. -/
def new : Limiter := ⟨false, 0, 0, 0, 0, 0⟩

def configure (l : Limiter) (now : Time) (config : RateLimitPolicy) : Limiter :=
  if l.initialized ∧ l.rate = config.requestsPerSecond ∧ l.burst = config.burst then l
  else
    { l with
      initialized := true
      rate := config.requestsPerSecond
      burst := config.burst
      last := now
      tokens := config.burst }

/-- `t.Sub(u).Seconds()` for a time `t` that is not before `u`: `Sub` stops at the longest
duration. -/
def elapsedSeconds (t u : Time) : ℚ := ((min (t - u) (2 ^ 63 - 1) : Int) : ℚ) / 1000000000

def refill (l : Limiter) (now : Time) : Limiter :=
  if l.rate ≤ 0 ∨ now < l.last then { l with last := now }
  else { l with tokens := min l.burst (l.tokens + elapsedSeconds now l.last * l.rate), last := now }

/-- `Limiter.Acquire` for a policy that is enabled: a permit, or an error. -/
def acquire (l : Limiter) (now : Time) (config : RateLimitPolicy) : Except Error Unit × Limiter :=
  if !validate config then (.error .invalidPolicy, l)
  else
    let l := (l.configure now config).refill now
    if config.maxConcurrency > 0 ∧
      l.inflight ≥ config.maxConcurrency then (.error (.limited none), l)
    else if config.requestsPerSecond > 0 ∧ l.tokens < 1 then (.error (.limited none), l)
    else
      (.ok (), { l with
        tokens := if config.requestsPerSecond > 0 then l.tokens - 1 else l.tokens
        inflight := l.inflight + 1 })

/-- `Permit.Release`, the first time. -/
def release (l : Limiter) : Limiter := if l.inflight > 0 then
    { l with inflight := l.inflight - 1 } else l

end Limiter

/-! ## The distributed limiter -/

/-- `FailureMode`. -/
inductive FailureMode where
  | failClosed
  | failOpen
  | localFallback
  deriving DecidableEq

/-- `Degradation`. -/
inductive Degradation where
  | none
  | failOpen
  | localFallback
  deriving DecidableEq

/-- `Subject`. -/
structure Subject where
  key : Bytes
  cost : Int
  deriving DecidableEq

/-- `Decision`; the time after which to retry is in nanoseconds. -/
structure Decision where
  allowed : Bool
  remaining : ℚ
  retryAfter : Int
  deriving DecidableEq

/-- `validateSubject` succeeds. -/
def validateSubject (subject : Subject) : Bool :=
  subject.key.trimmed && subject.key != [] && decide (subject.key.length ≤ 256) &&
    decide (0 < subject.cost) && !subject.key.hasControl

/-- `validateDecision` succeeds. -/
def validateDecision (decision : Decision) : Bool :=
  decide (0 ≤ decision.remaining) && decide (0 ≤ decision.retryAfter)

def limitedError (decision : Decision) : Error :=
  .limited (if decision.retryAfter ≤ 0 then none else some (max (decision.retryAfter / 1000000) 1))

def concurrencyPolicy (config : RateLimitPolicy) : RateLimitPolicy :=
  if config.maxConcurrency ≤ 0 then ⟨false, 0, 0, 0⟩ else ⟨true, 0, 0, config.maxConcurrency⟩

/-- What happens around a call of `Acquire`. -/
structure Call where
  /-- The context is done at the start. -/
  canceled : Bool
  /-- The subject, unless `SubjectFunc` fails. -/
  subject : Option Subject
  /-- The decision of the backend, unless it fails or times out. -/
  backend : Option Decision
  /-- The context is done when the backend has returned. -/
  canceledAfter : Bool
  now : Time
  deriving DecidableEq

/-- `DistributedPermit`. -/
structure Permit where
  /-- The key of the limiter whose slot it owns, until it is released. -/
  slot : Option String
  decision : Decision
  degradation : Degradation
  deriving DecidableEq

/-- A limiter for one operation and one policy. -/
structure Setting where
  mode : FailureMode
  target : Operation
  config : RateLimitPolicy

/-- `Pool.Get`. -/
def poolGet (pool : Map String Limiter) (key : String) : Limiter :=
  (pool.lookup (trimSpace key)).getD .new

def acquireLocal (pool : Map String Limiter) (now : Time) (key : String) (config : RateLimitPolicy)
    (decision : Decision) (degradation : Degradation) : Except Error Permit × Map String Limiter :=
  if !config.enabled then (.ok ⟨none, decision, degradation⟩, pool)
  else
    let acquired := (poolGet pool key).acquire now config
    let pool := pool.insert (trimSpace key) acquired.2
    match acquired.1 with
    | .error err => (.error err, pool)
    | .ok _ => (.ok ⟨some key, decision, degradation⟩, pool)

/-- `Acquire` after the backend has answered. -/
def settle (s : Setting) (pool : Map String Limiter) (call : Call) :
    Except Error Permit × Map String Limiter :=
  let key := s.target.policyKey
  match call.backend.filter validateDecision with
  | some decision =>
    if !decision.allowed then (.error (limitedError decision), pool)
    else acquireLocal pool call.now key (concurrencyPolicy s.config) decision .none
  | none =>
    match s.mode with
    | .failClosed => (.error .unavailable, pool)
    | .failOpen =>
      acquireLocal pool call.now key (concurrencyPolicy s.config) ⟨true, 0, 0⟩ .failOpen
    | .localFallback => acquireLocal pool call.now key s.config ⟨true, 0, 0⟩ .localFallback

/-- The checks of `Acquire` on the subject, and the context after the backend has answered. -/
def precheck (s : Setting) (call : Call) : Except Error Unit :=
  match call.subject with
  | none => .error .invalidSubject
  | some subject =>
    if !validateSubject subject then .error .invalidSubject
    else if subject.cost > s.config.burst then .error (.limited none)
    else if call.canceledAfter then .error .cause
    else .ok ()

/-- `DistributedLimiter.Acquire`. -/
def acquire (s : Setting) (pool : Map String Limiter) (call : Call) :
    Except Error Permit × Map String Limiter :=
  if call.canceled then (.error .cause, pool)
  else if s.target.transport = [] ∨ s.target.service = [] ∨
    s.target.method = [] then (.error .invalidSubject, pool)
  else if !s.config.enabled then (.ok ⟨none, ⟨false, 0, 0⟩, .none⟩, pool)
  else if !validate s.config then (.error .invalidPolicy, pool)
  else if ¬ s.config.requestsPerSecond > 0 then
    acquireLocal pool call.now s.target.policyKey (concurrencyPolicy s.config) ⟨true, 0, 0⟩ .none
  else
    match precheck s call with
    | .error err => (.error err, pool)
    | .ok _ => settle s pool call

/-! ## Sequences of calls -/

/-- The local limiters, the permits that were given out, and the time. -/
structure System where
  pool : Map String Limiter
  permits : List Permit
  clock : Time

/-- What may happen next. -/
inductive Input where
  | acquire (call : Call)
  | release (permit : Nat)
  deriving DecidableEq

/-- What a call returns. -/
inductive Output where
  | acquired (result : Except Error Permit)
  | released

namespace System

def new : System := ⟨∅, [], 0⟩

/-- `DistributedPermit.Release`. -/
def release (s : System) (permit : Nat) : System :=
  match s.permits[permit]? with
  | some ⟨some key, decision, degradation⟩ =>
    { s with
      pool := s.pool.insert (trimSpace key) (poolGet s.pool key).release
      permits := s.permits.set permit ⟨none, decision, degradation⟩ }
  | _ => s

/-- One call. -/
def exec (setting : Setting) (s : System) : Input → Output × System
  | .acquire call =>
    let result := acquire setting s.pool call
    (.acquired result.1,
      { pool := result.2, clock := call.now, permits := s.permits ++ (result.1.toOption).toList })
  | .release permit => (.released, s.release permit)

/-- The machine: the clock does not run backwards. -/
def machine (setting : Setting) : Machine System Input Output where
  init s := s.pool = ∅ ∧ s.permits = []
  exec := exec setting
  may _ s i := match i with
    | .acquire call => s.clock ≤ call.now
    | .release _ => True

end System

end Keelith.RateLimit

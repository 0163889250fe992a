import Keelith.Operation
import Keelith.Lib.Checks

/-!
# Method policies

`governance/policy`: a configuration with settings for everything, for services, for matched
operations and for single methods, and the policy that a store built from it resolves for an
operation.

- **Settings** (`Settings`): a `Policy` has a value for each; `Overrides` may leave out sections and
  values, a `Patch` only whole sections. One structure stands for the three.
- **Maps** are association lists: a later entry comes first where the source overwrites
  (`servicePolicies`); `compile` rejects duplicates. The order of a map only decides which of
  several errors is returned.
- **External code** (`Env`): numbers of type `float64`, `strings.ToLower` and regular expressions.
- **Texts** are bytes: nothing requires valid UTF-8.
- Texts of errors are those of the source without the values that they format.
-/

namespace Keelith.MethodPolicy

open Operation (Kind)
open Bytes (ascii trimmed hasControl)

/-! ## Settings -/

/-- A value that is always there. -/
abbrev Val (α : Type) : Type := α

/-- `RetryPolicy` and `RetryConfig`. -/
structure Retry (φ : Type) (f : Type → Type) where
  enabled : f Bool
  idempotent : f Bool
  maxAttempts : f Int
  backoffMin : f Int
  backoffMax : f Int
  budgetRatio : f φ

/-- `HedgingPolicy` and `HedgingConfig`. -/
structure Hedging (f : Type → Type) where
  enabled : f Bool
  idempotent : f Bool
  maxAttempts : f Int
  delay : f Int

/-- `BreakerPolicy` and `BreakerConfig`. -/
structure Breaker (φ : Type) (f : Type → Type) where
  enabled : f Bool
  failureRatio : f φ
  window : f Int
  minRequests : f Int
  openTimeout : f Int
  halfOpenProbes : f Int

/-- `BulkheadPolicy` and `BulkheadConfig`. -/
structure Bulkhead (f : Type → Type) where
  enabled : f Bool
  maxConcurrency : f Int
  maxQueue : f Int
  queueTimeout : f Int

/-- `RateLimitPolicy` and `RateLimitConfig`. -/
structure RateLimit (φ : Type) (f : Type → Type) where
  enabled : f Bool
  requestsPerSecond : f φ
  burst : f Int
  maxConcurrency : f Int

/-- `LoadSheddingPolicy` and `LoadSheddingConfig`. -/
structure LoadShedding (φ : Type) (f : Type → Type) where
  enabled : f Bool
  maxConcurrency : f Int
  cpuThreshold : f φ

/-- `StreamPolicy` and `StreamConfig`. -/
structure Stream (φ : Type) (f : Type → Type) where
  enabled : f Bool
  maxSendMessages : f Int
  maxReceiveMessages : f Int
  messagesPerSecond : f φ
  burst : f Int
  maxConcurrency : f Int

/-- Sections with values under `f`, each under `g`. -/
structure Settings (φ : Type) (g f : Type → Type) where
  timeout : g Int
  retry : g (Retry φ f)
  hedging : g (Hedging f)
  breaker : g (Breaker φ f)
  bulkhead : g (Bulkhead f)
  rateLimit : g (RateLimit φ f)
  loadShedding : g (LoadShedding φ f)
  stream : g (Stream φ f)

abbrev Policy (φ : Type) := Settings φ Val Val
abbrev Patch (φ : Type) := Settings φ Option Val
abbrev Overrides (φ : Type) := Settings φ Option Option

/-- `float64`, with the constants of the source. -/
structure Floats (φ : Type) where
  isNaN : φ → Bool
  isInf : φ → Bool
  lt : φ → φ → Bool
  le : φ → φ → Bool
  zero : φ
  one : φ
  tenth : φ
  half : φ

/-- External code. -/
structure Env (φ : Type) where
  num : Floats φ
  toLower : Bytes → Bytes
  /-- `regexp.Compile`, and `MatchString` of what it returns. -/
  regexp : Bytes → Option (Bytes → Bool)

/-- `ErrInvalidPolicy` and `ErrInvalidDefinition`. -/
inductive Error where
  | policy (text : String)
  | definition (text : String)
  /-- A definition that is invalid because of another error. -/
  | within (place : String) (cause : Error)
  | operation (text : String)

variable {φ : Type} (env : Env φ)

/-- A millisecond, in nanoseconds. -/
def millisecond : Int := 1000000

def default : Policy φ where
  timeout := 3000 * millisecond
  retry := ⟨false, false, 3, 10 * millisecond, 1000 * millisecond, env.num.tenth⟩
  hedging := ⟨false, false, 2, 50 * millisecond⟩
  breaker := ⟨false, env.num.half, 30000 * millisecond, 20, 10000 * millisecond, 2⟩
  bulkhead := ⟨false, 100, 0, 0⟩
  rateLimit := ⟨false, env.num.zero, 0, 0⟩
  loadShedding := ⟨false, 0, env.num.zero⟩
  stream := ⟨false, 0, 0, env.num.zero, 0, 0⟩

/-! ## Validate -/

/-- A check with the text of its error. -/
def reject (bad : Bool) (text : String) : Except Error Unit :=
  if bad then .error (.policy text) else .ok ()

def invalidRatio (value : φ) : Bool := env.num.isNaN value || env.num.isInf value ||
    env.num.lt value env.num.zero

def validateRetry (value : Retry φ Val) : Except Error Unit := do
  reject (value.maxAttempts < 0 || value.backoffMin < 0 || value.backoffMax < 0 ||
    invalidRatio env value.budgetRatio)
    "retry contains a negative or non-finite value"
  if !value.enabled then return
  reject (!value.idempotent) "retry requires an idempotent operation"
  reject (value.maxAttempts < 2 || value.maxAttempts > 10)
    "retry max attempts must be between 2 and 10"
  reject (value.backoffMin ≤ 0 || value.backoffMax < value.backoffMin)
    "retry backoff range is invalid"
  reject (env.num.le value.budgetRatio env.num.zero || env.num.lt env.num.one value.budgetRatio)
    "retry budget ratio must be in (0, 1]"

def validateHedging (value : Hedging Val) : Except Error Unit := do
  reject (value.maxAttempts < 0 || value.delay < 0) "hedging contains a negative value"
  if !value.enabled then return
  reject (!value.idempotent) "hedging requires an idempotent operation"
  reject (value.maxAttempts < 2 || value.maxAttempts > 5)
    "hedging max attempts must be between 2 and 5"
  reject (value.delay ≤ 0) "hedging delay must be positive"

def validateBreaker (value : Breaker φ Val) : Except Error Unit := do
  reject (invalidRatio env value.failureRatio || value.window < 0 || value.minRequests < 0 ||
    value.openTimeout < 0 ||
    value.halfOpenProbes < 0) "breaker contains a negative or non-finite value"
  if !value.enabled then return
  reject (env.num.le value.failureRatio env.num.zero || env.num.lt env.num.one value.failureRatio)
    "breaker failure ratio must be in (0, 1]"
  reject (value.window ≤ 0 || value.minRequests ≤ 0 || value.openTimeout ≤ 0 ||
    value.halfOpenProbes ≤ 0)
    "breaker thresholds must be positive"

def validateBulkhead (value : Bulkhead Val) : Except Error Unit := do
  reject (value.maxConcurrency < 0 || value.maxQueue < 0 || value.queueTimeout < 0)
    "bulkhead contains a negative value"
  if !value.enabled then return
  reject (value.maxConcurrency ≤ 0) "bulkhead max concurrency must be positive"
  reject (value.maxQueue > 0 && value.queueTimeout ≤ 0) "bulkhead queue requires a positive timeout"
  reject (value.maxQueue == 0 && value.queueTimeout > 0) "bulkhead queue timeout requires a queue"

/-- A rate with its burst: one of them is set, and one of them is not. -/
def hasRate (rate : φ) (burst : Int) : Bool := env.num.lt env.num.zero rate || burst > 0

def validateRateLimit (value : RateLimit φ Val) : Except Error Unit := do
  reject (invalidRatio env value.requestsPerSecond || value.burst < 0 || value.maxConcurrency < 0)
    "rate limit contains a negative or non-finite value"
  if !value.enabled then return
  let rate := hasRate env value.requestsPerSecond value.burst
  reject (rate && (env.num.le value.requestsPerSecond env.num.zero || value.burst ≤ 0))
    "rate limit requires both requests per second and burst"
  reject (!rate && value.maxConcurrency ≤ 0) "rate limit requires a rate or concurrency limit"

def validateLoadShedding (value : LoadShedding φ Val) : Except Error Unit := do
  reject (value.maxConcurrency < 0 || invalidRatio env value.cpuThreshold ||
    env.num.lt env.num.one value.cpuThreshold)
    "load shedding contains an invalid threshold"
  reject (value.enabled && value.maxConcurrency ≤ 0 && env.num.le value.cpuThreshold env.num.zero)
    "load shedding requires a concurrency or CPU threshold"

def validateStream (value : Stream φ Val) : Except Error Unit := do
  reject (value.maxSendMessages < 0 || value.maxReceiveMessages < 0 ||
    invalidRatio env value.messagesPerSecond ||
    value.burst < 0 || value.maxConcurrency < 0) "stream policy contains an invalid limit"
  if !value.enabled then return
  let rate := hasRate env value.messagesPerSecond value.burst
  reject (rate && (env.num.le value.messagesPerSecond env.num.zero || value.burst ≤ 0))
    "stream message rate requires both messages per second and burst"
  reject (value.maxSendMessages ≤ 0 && value.maxReceiveMessages ≤ 0 && !rate &&
    value.maxConcurrency ≤ 0)
    "stream policy requires at least one limit"

def validate (value : Policy φ) : Except Error Unit := do
  reject (value.timeout ≤ 0) "timeout must be positive"
  validateRetry env value.retry
  validateHedging value.hedging
  reject (value.retry.enabled && value.hedging.enabled) "retry and hedging are mutually exclusive"
  validateBreaker env value.breaker
  validateBulkhead value.bulkhead
  validateRateLimit env value.rateLimit
  validateLoadShedding env value.loadShedding
  validateStream env value.stream

/-! ## Patches -/

def assign {α : Type} (source : Option α) (target : α) : α := source.getD target

def applyRetryConfig (target : Retry φ Val) (value : Retry φ Option) : Retry φ Val :=
  ⟨assign value.enabled target.enabled, assign value.idempotent target.idempotent,
    assign value.maxAttempts target.maxAttempts,
    assign value.backoffMin target.backoffMin, assign value.backoffMax target.backoffMax,
    assign value.budgetRatio target.budgetRatio⟩

def applyHedgingConfig (target : Hedging Val) (value : Hedging Option) : Hedging Val :=
  ⟨assign value.enabled target.enabled, assign value.idempotent target.idempotent,
    assign value.maxAttempts target.maxAttempts, assign value.delay target.delay⟩

def applyBreakerConfig (target : Breaker φ Val) (value : Breaker φ Option) : Breaker φ Val :=
  ⟨assign value.enabled target.enabled, assign value.failureRatio target.failureRatio,
    assign value.window target.window,
    assign value.minRequests target.minRequests, assign value.openTimeout target.openTimeout,
    assign value.halfOpenProbes target.halfOpenProbes⟩

def applyBulkheadConfig (target : Bulkhead Val) (value : Bulkhead Option) : Bulkhead Val :=
  ⟨assign value.enabled target.enabled, assign value.maxConcurrency target.maxConcurrency,
    assign value.maxQueue target.maxQueue, assign value.queueTimeout target.queueTimeout⟩

def applyRateLimitConfig (target : RateLimit φ Val) (value : RateLimit φ Option) :
    RateLimit φ Val :=
  ⟨assign value.enabled target.enabled, assign value.requestsPerSecond target.requestsPerSecond,
    assign value.burst target.burst, assign value.maxConcurrency target.maxConcurrency⟩

def applyLoadSheddingConfig (target : LoadShedding φ Val) (value : LoadShedding φ Option) :
    LoadShedding φ Val :=
  ⟨assign value.enabled target.enabled, assign value.maxConcurrency target.maxConcurrency,
    assign value.cpuThreshold target.cpuThreshold⟩

def applyStreamConfig (target : Stream φ Val) (value : Stream φ Option) : Stream φ Val :=
  ⟨assign value.enabled target.enabled, assign value.maxSendMessages target.maxSendMessages,
    assign value.maxReceiveMessages target.maxReceiveMessages,
      assign value.messagesPerSecond target.messagesPerSecond,
    assign value.burst target.burst, assign value.maxConcurrency target.maxConcurrency⟩

/-- `Overrides.patch`. -/
def Settings.patch (value : Overrides φ) (base : Policy φ) : Patch φ where
  timeout := value.timeout
  retry := value.retry.map (applyRetryConfig base.retry)
  hedging := value.hedging.map (applyHedgingConfig base.hedging)
  breaker := value.breaker.map (applyBreakerConfig base.breaker)
  bulkhead := value.bulkhead.map (applyBulkheadConfig base.bulkhead)
  rateLimit := value.rateLimit.map (applyRateLimitConfig base.rateLimit)
  loadShedding := value.loadShedding.map (applyLoadSheddingConfig base.loadShedding)
  stream := value.stream.map (applyStreamConfig base.stream)

/-- `Patch.apply`. -/
def Settings.apply (patch : Patch φ) (base : Policy φ) : Policy φ where
  timeout := patch.timeout.getD base.timeout
  retry := patch.retry.getD base.retry
  hedging := patch.hedging.getD base.hedging
  breaker := patch.breaker.getD base.breaker
  bulkhead := patch.bulkhead.getD base.bulkhead
  rateLimit := patch.rateLimit.getD base.rateLimit
  loadShedding := patch.loadShedding.getD base.loadShedding
  stream := patch.stream.getD base.stream

/-- What overrides mean: every single value is the one that is set, or else that of the base. -/
def Settings.overlay (value : Overrides φ) (base : Policy φ) : Policy φ where
  timeout := value.timeout.getD base.timeout
  retry := {
    enabled := (value.retry.bind Retry.enabled).getD base.retry.enabled
    idempotent := (value.retry.bind Retry.idempotent).getD base.retry.idempotent
    maxAttempts := (value.retry.bind Retry.maxAttempts).getD base.retry.maxAttempts
    backoffMin := (value.retry.bind Retry.backoffMin).getD base.retry.backoffMin
    backoffMax := (value.retry.bind Retry.backoffMax).getD base.retry.backoffMax
    budgetRatio := (value.retry.bind Retry.budgetRatio).getD base.retry.budgetRatio }
  hedging := {
    enabled := (value.hedging.bind Hedging.enabled).getD base.hedging.enabled
    idempotent := (value.hedging.bind Hedging.idempotent).getD base.hedging.idempotent
    maxAttempts := (value.hedging.bind Hedging.maxAttempts).getD base.hedging.maxAttempts
    delay := (value.hedging.bind Hedging.delay).getD base.hedging.delay }
  breaker := {
    enabled := (value.breaker.bind Breaker.enabled).getD base.breaker.enabled
    failureRatio := (value.breaker.bind Breaker.failureRatio).getD base.breaker.failureRatio
    window := (value.breaker.bind Breaker.window).getD base.breaker.window
    minRequests := (value.breaker.bind Breaker.minRequests).getD base.breaker.minRequests
    openTimeout := (value.breaker.bind Breaker.openTimeout).getD base.breaker.openTimeout
    halfOpenProbes := (value.breaker.bind Breaker.halfOpenProbes).getD base.breaker.halfOpenProbes }
  bulkhead := {
    enabled := (value.bulkhead.bind Bulkhead.enabled).getD base.bulkhead.enabled
    maxConcurrency := (value.bulkhead.bind Bulkhead.maxConcurrency).getD
      base.bulkhead.maxConcurrency
    maxQueue := (value.bulkhead.bind Bulkhead.maxQueue).getD base.bulkhead.maxQueue
    queueTimeout := (value.bulkhead.bind Bulkhead.queueTimeout).getD base.bulkhead.queueTimeout }
  rateLimit := {
    enabled := (value.rateLimit.bind RateLimit.enabled).getD base.rateLimit.enabled
    requestsPerSecond := (value.rateLimit.bind RateLimit.requestsPerSecond).getD
      base.rateLimit.requestsPerSecond
    burst := (value.rateLimit.bind RateLimit.burst).getD base.rateLimit.burst
    maxConcurrency := (value.rateLimit.bind RateLimit.maxConcurrency).getD
      base.rateLimit.maxConcurrency }
  loadShedding := {
    enabled := (value.loadShedding.bind LoadShedding.enabled).getD base.loadShedding.enabled
    maxConcurrency := (value.loadShedding.bind LoadShedding.maxConcurrency).getD
      base.loadShedding.maxConcurrency
    cpuThreshold := (value.loadShedding.bind LoadShedding.cpuThreshold).getD
      base.loadShedding.cpuThreshold }
  stream := {
    enabled := (value.stream.bind Stream.enabled).getD base.stream.enabled
    maxSendMessages := (value.stream.bind Stream.maxSendMessages).getD base.stream.maxSendMessages
    maxReceiveMessages := (value.stream.bind Stream.maxReceiveMessages).getD
      base.stream.maxReceiveMessages
    messagesPerSecond := (value.stream.bind Stream.messagesPerSecond).getD
      base.stream.messagesPerSecond
    burst := (value.stream.bind Stream.burst).getD base.stream.burst
    maxConcurrency := (value.stream.bind Stream.maxConcurrency).getD base.stream.maxConcurrency }

/-- `ServiceConfig`. -/
structure ServiceConfig (φ : Type) where
  service : Bytes
  policy : Overrides φ

/-- `MethodConfig`. -/
structure MethodConfig (φ : Type) where
  transport : Bytes
  service : Bytes
  method : Bytes
  kind : Bytes
  policy : Overrides φ

/-- `MatcherConfig`. -/
structure MatcherConfig (φ : Type) where
  name : Bytes
  mode : Bytes
  transport : Bytes
  service : Bytes
  method : Bytes
  kind : Bytes
  policy : Overrides φ

/-- `Config`. -/
structure Config (φ : Type) where
  global : Overrides φ
  services : List (ServiceConfig φ)
  matchers : List (MatcherConfig φ)
  methods : List (MethodConfig φ)

/-- `operation.Kind` of a text; `validKind`. -/
def kindOf (text : Bytes) : Option Kind :=
  [Kind.unary, .clientStream, .serverStream, .bidiStream, .consumer, .job].find? fun kind =>
    bytesOf kind.text = text

def validTransport (transport : Bytes) : Bool :=
  let letter (b : UInt8) : Bool := 'a'.toUInt8 ≤ b && b ≤ 'z'.toUInt8
  transport.head?.any letter && transport.tail.all fun b =>
    letter b || '0'.toUInt8 ≤ b && b ≤ '9'.toUInt8 || b ∈ ascii ['+', '-', '.']

/-- `validComponent` of the operations and `validIdentity` of the policies. -/
def validIdentity (value : Bytes) : Bool :=
  value != [] && trimmed value && !hasControl value

/-- `operation.New`. -/
def newOperation (transport service method kind : Bytes) : Except Error Operation :=
  let normalized := env.toLower transport
  if !validTransport normalized then .error (.operation "transport")
  else if !validIdentity service then .error (.operation "service")
  else if !validIdentity method then .error (.operation "method")
  else match kindOf kind with
    | none => .error (.operation "kind")
    | some kind => .ok ⟨normalized, service, method, kind⟩

/-- `compiledMatcher`: filters, and how the texts of service and method match. -/
structure Matcher where
  transport : Bytes
  kind : Option Kind
  service : Bytes → Bool
  method : Bytes → Bool

/-- `validateMatcherExpression`. -/
def validExpression (value : Bytes) : Bool :=
  value == [] || value.length ≤ 512 && validIdentity value

/-- How an expression matches, by its mode. -/
def compileExpression (mode expression : Bytes) : Option (Bytes → Bool) :=
  if expression = [] then some fun _ => true
  else if mode = bytesOf "exact" then some fun value => expression == value
  else if mode = bytesOf "prefix" then some fun value => expression.isPrefixOf value
  else env.regexp expression

def compileMatcher (rule : MatcherConfig φ) : Except Error Matcher :=
  let mode := if rule.mode = [] then bytesOf "exact" else rule.mode
  if mode ≠ bytesOf "exact" ∧ mode ≠ bytesOf "prefix" ∧ mode ≠ bytesOf "regexp" then
    .error (.operation "matcher mode")
  else if rule.transport ≠ [] ∧ (env.toLower rule.transport ≠ rule.transport ∨
    validTransport rule.transport = false) then
    .error (.operation "matcher transport")
  else if rule.kind ≠ [] ∧ kindOf rule.kind = none then .error (.operation "matcher kind")
  else if rule.service = [] ∧ rule.method = [] ∧ rule.transport = [] ∧ rule.kind = [] then
    .error (.operation "matcher has no filters")
  else if !validExpression rule.service then .error (.operation "service matcher")
  else if !validExpression rule.method then .error (.operation "method matcher")
  else match compileExpression env mode rule.service, compileExpression env mode rule.method with
    | none, _ => .error (.operation "service regexp")
    | _, none => .error (.operation "method regexp")
    | some service, some method => .ok ⟨rule.transport, kindOf rule.kind, service, method⟩

/-- `Match`. -/
def Matcher.matches (m : Matcher) (target : Operation) : Bool :=
  (m.transport = [] ∨ target.transport = m.transport) &&
    (m.kind = none ∨ m.kind = some target.kind) &&
    m.service target.service && m.method target.method

/-! ## Definitions and snapshots -/

/-- `MatchRule` and `compiledMatchRule`. -/
structure MatchRule (φ : Type) where
  name : Bytes
  matcher : Matcher
  patch : Patch φ
  servicePatches : List (Bytes × Patch φ)

/-- `Definition`; a `ServiceRule` or a `MethodRule` is a pair. -/
structure Definition (φ : Type) where
  revision : Bytes
  global : Policy φ
  services : List (Bytes × Patch φ)
  matchers : List (MatchRule φ)
  methods : List (Operation × Patch φ)

/-- `Snapshot`. -/
structure Snapshot (φ : Type) where
  revision : Bytes
  global : Policy φ
  services : List (Bytes × Policy φ)
  matchers : List (MatchRule φ)
  methods : List (String × Policy φ)

/-- The policy of a service, or else the global one. -/
def baseOf (global : Policy φ) (services : List (Bytes × Policy φ)) (service : Bytes) : Policy φ :=
  (services.lookup service).getD global

/-- The patch of a matcher for a service. -/
def MatchRule.patchFor (rule : MatchRule φ) (service : Bytes) : Patch φ :=
  (rule.servicePatches.lookup service).getD rule.patch

def Snapshot.resolve (snapshot : Snapshot φ) (target : Operation) : Policy φ :=
  match snapshot.methods.lookup target.policyKey with
  | some value => value
  | none =>
    let base := baseOf snapshot.global snapshot.services target.service
    match snapshot.matchers.find? fun rule => rule.matcher.matches target with
    | some rule => (rule.patchFor target.service).apply base
    | none => base

/-- The rule is for exactly this operation. -/
def MethodConfig.isFor (rule : MethodConfig φ) (target : Operation) : Bool :=
  match newOperation env rule.transport rule.service rule.method rule.kind with
  | .ok operation => operation == target
  | .error _ => false

/-- The rule matches the operation. -/
def MatcherConfig.matches (rule : MatcherConfig φ) (target : Operation) : Bool :=
  match compileMatcher env rule with
  | .ok matcher => matcher.matches target
  | .error _ => false

/-- The settings that hold for all operations of a service. -/
def Config.base (value : Config φ) (service : Bytes) : Policy φ :=
  let global := value.global.overlay (default env)
  match value.services.find? fun rule => service == rule.service with
  | some rule => rule.policy.overlay global
  | none => global

/-- The declared precedence: the rule for the method or else the first matcher, then the service,
then the global settings, then the default. -/
def Config.resolve (value : Config φ) (target : Operation) : Policy φ :=
  let base := value.base env target.service
  match value.methods.find? fun rule => rule.isFor env target with
  | some rule => rule.policy.overlay base
  | none =>
    match value.matchers.find? fun rule => rule.matches env target with
    | some rule => rule.policy.overlay base
    | none => base

variable {d : Definition φ} {snapshot : Snapshot φ} {rule : MatcherConfig φ} {value : Config φ}

/-- A snapshot that is made from a configuration. -/
structure Made (value : Config φ) (snapshot : Snapshot φ) : Prop where
  base (service : Bytes) : baseOf snapshot.global snapshot.services service = value.base env service
  base_valid (service : Bytes) : validate env (value.base env service) = .ok ()
  matchers : List.Forall₂ (fun rule made => compileMatcher env rule = .ok made.matcher ∧ ∀ service,
    (made.patchFor service).apply (value.base env service) =
      rule.policy.overlay (value.base env service) ∧
    validate env (rule.policy.overlay (value.base env service)) = .ok ())
    value.matchers snapshot.matchers
  methods : List.Forall₂ (fun rule method => ∃ target,
    newOperation env rule.transport rule.service rule.method rule.kind = .ok target ∧
    method = (target.policyKey, rule.policy.overlay (value.base env target.service)) ∧
    validate env method.2 = .ok ()) value.methods snapshot.methods

/-- What a snapshot from a configuration resolves. -/
theorem Made.resolve (h : Made env value snapshot) (target : Operation) :
    snapshot.resolve target = value.resolve env target ∧
      validate env (snapshot.resolve target) = .ok () := by
  have hmethods := find?_forall₂ (p := fun rule => rule.isFor env target) (q := fun method =>
    target.policyKey == method.1)
    h.methods fun rule method hmade => by
      obtain ⟨operation, hoperation, rfl, -⟩ := hmade
      rw [MethodConfig.isFor, hoperation]
      exact Bool.eq_iff_iff.mpr ⟨fun heq => by simp [eq_of_beq heq], fun heq => by
        simp [Operation.policyKey_inj (eq_of_beq heq)]⟩
  have hmatchers := find?_forall₂ (p := fun rule => rule.matches env target) (q := fun made =>
    made.matcher.matches target)
    h.matchers fun rule made hmade => by rw [MatcherConfig.matches, hmade.1]
  unfold Snapshot.resolve Config.resolve
  rw [lookup_eq_find?, h.base]
  generalize value.methods.find? _ = rule, snapshot.methods.find? _ = method at hmethods ⊢
  cases hmethods with
  | some hmade =>
    obtain ⟨⟨operation, hoperation, rfl, hvalid⟩, hfor⟩ := hmade
    rw [MethodConfig.isFor, hoperation] at hfor
    obtain rfl := eq_of_beq hfor
    exact ⟨rfl, hvalid⟩
  | none =>
    generalize value.matchers.find? _ = rule, snapshot.matchers.find? _ = made at hmatchers ⊢
    cases hmatchers with
    | some hmade =>
      obtain ⟨happly, hvalid⟩ := hmade.1.2 target.service
      exact ⟨happly, (congrArg (validate env) happly).trans hvalid⟩
    | none => exact ⟨rfl, h.base_valid target.service⟩

namespace Orders

/-- Numbers are percentages; no text is a regular expression. -/
def percent : Env Int where
  num := ⟨fun _ => false, fun _ => false, fun a b => a < b, fun a b => a ≤ b, 0, 100, 10, 50⟩
  toLower := id
  regexp := fun _ => none

/-- Nothing is set. -/
def unset : Overrides Int := ⟨none, none, none, none, none, none, none, none⟩

/-- A limit for all, a timeout for a service, attempts for its methods that read. -/
def config : Config Int where
  global := { unset with bulkhead := some ⟨some true, some 8, none, none⟩ }
  services := [⟨bytesOf "orders", { unset with timeout := some 500 }⟩]
  matchers := [⟨bytesOf "reads", bytesOf "prefix", [], bytesOf "orders", bytesOf "Get", [],
    { unset with retry := some ⟨some true, some true, none, none, none, none⟩ }⟩]
  methods := [⟨bytesOf "grpc", bytesOf "orders", bytesOf "GetAll", bytesOf "unary",
    { unset with bulkhead := some ⟨none, some 2, none, none⟩ }⟩]

/-- A method of the service. -/
def target (method : String) : Operation :=
  ⟨bytesOf "grpc", bytesOf "orders", bytesOf method, .unary⟩

end Orders

end Keelith.MethodPolicy

import Keelith.Lib.Map
import Keelith.Lib.Text
import Keelith.Lib.Time
import Mathlib.Algebra.BigOperators.Group.Finset.Basic
import Mathlib.Data.Int.ConditionallyCompleteOrder
import Mathlib.Tactic.Linarith

/-!
# The outbox: messages and the dispatcher's configuration

`outbox/outbox.go` and the constructor of `outbox/dispatcher.go`.

- **Texts** are valid UTF-8 in Lean, so `utf8.ValidString` is no check.
- **Headers**: `Message.Validate` ranges over a map; `validate` takes the order of the keys.
  `validate_ok_iff`: the order decides only which error is reported.
- **Budgets**: `new` returns a `Dispatcher`, whose configuration has the budgets that `New` checks.
- **Retries**: `retryDelay_bounded`, for the delay of every attempt.
- **Errors of the publisher** have an arbitrary type `ε`. A classifier may have a state of its own:
  it is a function of a history `η`.
-/

namespace Keelith.Outbox

def maxIDBytes : Nat := 256

def maxDestinationBytes : Nat := 512

def maxKeyBytes : Nat := 1024 * 1024

def maxHeaders : Nat := 64

def maxHeaderBytes : Nat := 8 * 1024

def maxPayloadBytes : Nat := 16 * 1024 * 1024

/-- The errors of the package, and others by their text. -/
inductive Error where
  | errInvalidOption (text : String)
  | other (text : String)
  deriving DecidableEq

def validIdentity (value : String) (maxBytes : Nat) : Bool := boundedText value maxBytes

/-! ## Messages -/

/-- `Message`. -/
structure Message where
  id : String
  destination : String
  key : List UInt8 := []
  payload : List UInt8 := []
  headers : Map String (List UInt8) := ∅
  attempts : Int
  deriving DecidableEq

namespace Message

/-- The bytes of a header: its key and its value. -/
def headerSize (m : Message) (key : String) : Nat :=
  key.utf8ByteSize + ((m.headers.lookup key).getD []).length

/-- The loop of `Message.Validate`, with the bytes counted so far. -/
def validateHeaders (m : Message) (headerBytes : Nat) : List String → Except Error Unit
  | [] => .ok ()
  | key :: rest =>
    if !validIdentity key maxIDBytes then .error (.errInvalidOption "header key is malformed")
    else if maxHeaderBytes < headerBytes + m.headerSize key then
      .error (.errInvalidOption "headers exceed byte budget")
    else m.validateHeaders (headerBytes + m.headerSize key) rest

/-- The checks of `Message.Validate` before its loop. -/
def malformed (m : Message) : Bool :=
  !validIdentity m.id maxIDBytes || !validIdentity m.destination maxDestinationBytes ||
    m.attempts < 0 ||
    maxKeyBytes < m.key.length || maxPayloadBytes < m.payload.length || maxHeaders < m.headers.size

/-- `Message.Validate`, with the order in which it visits the headers. -/
def validate (m : Message) (order : List String) : Except Error Unit :=
  if m.malformed then .error (.errInvalidOption "message fields are malformed")
  else m.validateHeaders 0 order

/-- What `Validate` accepts, without an order. -/
def Valid (m : Message) : Prop :=
  m.malformed = false ∧ (∀ key ∈ m.headers.keys, validIdentity key maxIDBytes = true) ∧
    ∑ key ∈ m.headers.keys, m.headerSize key ≤ maxHeaderBytes

instance (m : Message) : Decidable m.Valid := inferInstanceAs (Decidable (_ ∧ _ ∧ _))

/-- The bytes only grow along the loop, so the budget is a bound of the sum. -/
theorem validateHeaders_ok_iff {m : Message} {headerBytes : Nat} {order : List String}
    (hbytes : headerBytes ≤ maxHeaderBytes) :
    m.validateHeaders headerBytes order = .ok () ↔
      (∀ key ∈ order, validIdentity key maxIDBytes = true) ∧
        headerBytes + (order.map m.headerSize).sum ≤ maxHeaderBytes := by
  induction order generalizing headerBytes with
  | nil => simpa [validateHeaders] using hbytes
  | cons key rest ih =>
    simp only [validateHeaders, List.forall_mem_cons, List.map_cons, List.sum_cons]
    by_cases hkey : validIdentity key maxIDBytes = true
    · by_cases hover : maxHeaderBytes < headerBytes + m.headerSize key
      · simp only [hkey, Bool.not_true, if_false, hover, if_true, reduceCtorEq, false_iff]
        omega
      · simp only [hkey, hover, Bool.not_true, Bool.false_eq_true, if_false, true_and]
        rw [ih (by omega), Nat.add_assoc]
    · simp [hkey]

theorem validate_ok_iff {m : Message} {order : List String} (horder : Map.Ranges order m.headers) :
    m.validate order = .ok () ↔ m.Valid := by
  have hkeys : m.headers.keys = order.toFinset := by
    ext key
    rw [Finmap.mem_keys, List.mem_toFinset, horder.mem]
  unfold validate Valid
  rw [hkeys, List.sum_toFinset _ horder.nodup]
  cases hm : m.malformed with
  | true => simp
  | false => simp [validateHeaders_ok_iff (m := m) (Nat.zero_le _)]

/-- The condition of `Dispatcher.process` for publishing: the message is valid and was claimed at
least once. -/
def Deliverable (m : Message) : Prop := m.Valid ∧ 0 < m.attempts

instance (m : Message) : Decidable m.Deliverable := inferInstanceAs (Decidable (_ ∧ _))

end Message

/-- `ClaimRequest`. -/
structure ClaimRequest where
  owner : String
  limit : Int
  leaseUntil : Time
  deriving DecidableEq

/-! ## Configuration -/

/-- What `Dispatcher.publish` returns instead of nil: the publisher's error, or the error of its
panic. -/
inductive PublishError (ε : Type) where
  | returned (error : ε)
  | publisherPanic
  deriving DecidableEq

/-- `FailureClassifier`, after the history `η`; `none` is a panic. -/
abbrev FailureClassifier (η ε : Type) := η → PublishError ε → Option String

/-- `Config`; `repository` and `publisher` tell whether they are set. -/
structure Config (η ε : Type) where
  name : String
  owner : String
  repository : Bool
  publisher : Bool
  pollInterval : Duration := 0
  errorDelay : Duration := 0
  leaseTTL : Duration := 0
  publishTimeout : Duration := 0
  batchSize : Int := 0
  maxAttempts : Int := 0
  retryBase : Duration := 0
  retryMax : Duration := 0
  classifyFailure : Option (FailureClassifier η ε) := none

namespace Config

variable {η ε : Type}

/-- A value of the configuration, or the default for 0. -/
def orDefault (value default : Int) : Int := if value = 0 then default else value

/-- The defaults of `New`. -/
def withDefaults (c : Config η ε) : Config η ε :=
  { c with
    pollInterval := orDefault c.pollInterval (250 * millisecond)
    errorDelay := orDefault c.errorDelay second
    leaseTTL := orDefault c.leaseTTL (30 * second)
    publishTimeout := orDefault c.publishTimeout (10 * second)
    batchSize := orDefault c.batchSize 100
    maxAttempts := orDefault c.maxAttempts 20
    retryBase := orDefault c.retryBase second
    retryMax := orDefault c.retryMax minute }

/-- The budgets that `New` accepts. -/
structure Budgets (c : Config η ε) : Prop where
  pollInterval : 0 ≤ c.pollInterval
  errorDelay : 0 ≤ c.errorDelay
  leaseTTL : 0 < c.leaseTTL
  publishTimeout : 0 < c.publishTimeout
  publishTimeout_lt : c.publishTimeout < c.leaseTTL
  batchSize : 0 < c.batchSize
  batchSize_le : c.batchSize ≤ 10000
  maxAttempts : 0 < c.maxAttempts
  retryBase : 0 < c.retryBase
  retryBase_le : c.retryBase ≤ c.retryMax

/-- The check of the budgets in `New`. -/
def overBudget (c : Config η ε) : Bool :=
  c.pollInterval < 0 || c.errorDelay < 0 || c.leaseTTL ≤ 0 || c.publishTimeout ≤ 0 ||
    c.leaseTTL ≤ c.publishTimeout || c.batchSize ≤ 0 || 10000 < c.batchSize || c.maxAttempts ≤ 0 ||
    c.retryBase ≤ 0 || c.retryMax < c.retryBase

theorem budgets_of_not_overBudget {c : Config η ε} (h : c.overBudget = false) : c.Budgets := by
  simp only [overBudget] at h
  constructor <;> lia

end Config

/-- The part of a `Dispatcher` that `New` sets and nothing changes. -/
structure Dispatcher (η ε : Type) where
  config : Config η ε
  budgets : config.Budgets

def new {η ε : Type} (config : Config η ε) : Except Error (Dispatcher η ε) :=
  if !validIdentity config.name maxIDBytes || !validIdentity config.owner maxIDBytes ||
      !config.repository || !config.publisher then
    .error (.errInvalidOption "name, owner, repository, or publisher")
  else if h : config.withDefaults.overBudget then .error (.errInvalidOption "dispatcher budgets")
  else .ok ⟨config.withDefaults, Config.budgets_of_not_overBudget (by simpa using h)⟩

namespace Dispatcher

variable {η ε : Type} (d : Dispatcher η ε)

/-- The loop of `retryDelay`, with the turns that are left. -/
def retryLoop (retryMax : Duration) : Nat → Duration → Duration
  | 0, delay => if retryMax < delay then retryMax else delay
  | turns + 1, delay =>
    if retryMax / 2 ≤ delay then retryMax else retryLoop retryMax turns (delay * 2)

def retryDelay (attempts : Int) : Duration :=
  retryLoop d.config.retryMax (attempts - 1).toNat d.config.retryBase

/-- The loop of `retryDelay` in the arithmetic of `time.Duration`, which wraps around. -/
def retryLoop64 (retryMax : Int64) : Nat → Int64 → Int64
  | 0, delay => if retryMax < delay then retryMax else delay
  | turns + 1, delay =>
    if retryMax / 2 ≤ delay then retryMax else retryLoop64 retryMax turns (delay * 2)

section

variable {retryMax delay : Duration} (hpos : 0 < delay) (hle : delay ≤ retryMax)

include hpos hle

theorem retryLoop_bounds (turns : Nat) :
    delay ≤ retryLoop retryMax turns delay ∧ retryLoop retryMax turns delay ≤ retryMax := by
  induction turns generalizing delay with
  | zero =>
    rw [retryLoop, if_neg (not_lt.mpr hle)]
    exact ⟨le_refl _, hle⟩
  | succ turns ih =>
    rw [retryLoop]
    split
    · exact ⟨hle, le_refl _⟩
    · obtain ⟨hlow, hhigh⟩ := @ih (delay * 2) (by lia) (by lia)
      exact ⟨by lia, hhigh⟩

/-- One more attempt does not shorten the delay. -/
theorem retryLoop_le_succ (turns : Nat) :
    retryLoop retryMax turns delay ≤ retryLoop retryMax (turns + 1) delay := by
  induction turns generalizing delay with
  | zero =>
    rw [retryLoop, if_neg (not_lt.mpr hle)]
    exact (retryLoop_bounds hpos hle 1).1
  | succ turns ih =>
    rw [retryLoop, retryLoop.eq_2 retryMax delay (turns + 1)]
    split
    · exact le_refl _
    · exact ih (by lia) (by lia)

end

/-- No doubling wraps around: the delay is below half of `retryMax`. -/
theorem retryLoop64_toInt {retryMax delay : Int64} (hpos : 0 < delay.toInt)
    (hle : delay.toInt ≤ retryMax.toInt) (turns : Nat) :
    (retryLoop64 retryMax turns delay).toInt = retryLoop retryMax.toInt turns delay.toInt := by
  induction turns generalizing delay with
  | zero =>
    simp only [retryLoop64, retryLoop, Int64.lt_iff_toInt_lt]
    split <;> rfl
  | succ turns ih =>
    have hmax := retryMax.toInt_lt
    have hhalf : (retryMax / 2).toInt = retryMax.toInt / 2 := by
      rw [Int64.toInt_div_of_ne_right _ _ (by decide)]
      exact Int.tdiv_eq_ediv_of_nonneg (by omega)
    simp only [retryLoop64, retryLoop, Int64.le_iff_toInt_le, hhalf]
    split
    · rfl
    · have hdouble : (delay * 2).toInt = delay.toInt * 2 := by
        rw [Int64.toInt_mul, show (2 : Int64).toInt = 2 from rfl]
        exact Int.bmod_eq_of_le (by omega) (by omega)
      rw [ih (by omega) (by omega), hdouble]

/-- **The delay of a retry** lies between `RetryBase` and `RetryMax` and does not decrease with the
attempts; the arithmetic of `time.Duration` computes it without wrapping around. -/
theorem retryDelay_bounded :
    (∀ attempts, d.config.retryBase ≤ d.retryDelay attempts ∧
      d.retryDelay attempts ≤ d.config.retryMax) ∧ Monotone d.retryDelay ∧
    ∀ retryBase retryMax : Int64, retryBase.toInt = d.config.retryBase →
      retryMax.toInt = d.config.retryMax →
      ∀ attempts, (retryLoop64 retryMax (attempts - 1).toNat retryBase).toInt =
        d.retryDelay attempts := by
  have hpos := d.budgets.retryBase
  have hle := d.budgets.retryBase_le
  refine ⟨fun attempts => retryLoop_bounds hpos hle _, fun first second h => ?_,
    fun retryBase retryMax hbase hmax attempts => ?_⟩
  · exact monotone_nat_of_le_succ (retryLoop_le_succ hpos hle) (Int.toNat_le_toNat (by omega))
  · rw [← hbase] at hpos hle
    rw [← hmax] at hle
    rw [retryLoop64_toInt hpos hle, hbase, hmax, retryDelay]

/-- With the defaults, the seventh attempt waits for a minute. -/
theorem retryDelay_bounded_defaults : ∃ d : Dispatcher Unit Unit,
    new { name := "orders", owner := "worker", repository := true, publisher := true } = .ok d ∧
      d.retryDelay 7 = minute :=
  ⟨_, rfl, ((retryDelay_bounded _).2.2 1000000000 60000000000 rfl rfl 7).symm⟩

/-- The timeout of `settlementContext`. -/
def settlementTimeout : Duration := min d.config.publishTimeout (d.config.leaseTTL / 2)

theorem settlementTimeout_nonneg : 0 ≤ d.settlementTimeout := by
  have hpublish := d.budgets.publishTimeout
  have hlease := d.budgets.leaseTTL
  unfold settlementTimeout
  lia

/-- `Dispatcher.classifyFailure`; without a classifier `New` sets a constant one. -/
def classifyFailure (history : η) (err : PublishError ε) : String :=
  match d.config.classifyFailure with
  | none => "publish_failed"
  | some classify => (classify history err).getD "publish_failed"

/-- The reason that `process` hands on. -/
def failureReason (history : η) (err : PublishError ε) : String :=
  if validIdentity (d.classifyFailure history err) 64 then d.classifyFailure history err
  else "publish_failed"

/-- Whatever the classifier does, the reason is bounded. -/
theorem failureReason_valid (history : η) (err : PublishError ε) :
    validIdentity (d.failureReason history err) 64 = true := by
  unfold failureReason
  split
  next hvalid => exact hvalid
  next => decide

end Dispatcher

end Keelith.Outbox

import Keelith.Lib.Checks
import Keelith.Lib.Run
import Keelith.Projection.Model
import Mathlib.Algebra.Order.BigOperators.Group.List

/-!
# Tenant quotas

`programmable/projection/quota.go`: the manager that counts the sessions and the disk bytes of each
tenant.

- **The manager** (`QuotaManager`): the limits of each class, and a usage record for each tenant. A
  record is created by the first request of a tenant, also if the request fails, and removed by the
  `Close` that empties it.
- **Requests** (`charge`): `AcquireSession` and `ReserveDisk` are the same but for the limit they
  check and what they add.
- **Leases**: `SessionQuotaLease.Close` sets `released` under the lock of the lease and gives the
  session back under the lock of the manager, so these are two steps. `DiskQuotaLease.Close` runs
  under a `sync.Once` and is one.
- **Left out**: `AllowFrame`, which changes a session lease only, with the fields of the lease that
  it reads; `SnapshotByClass`.

An `int64` is an `Int`. The limits are at most `2 ^ 60`, so no sum or difference of the source
overflows.
-/

namespace Keelith.Projection

/-! ## Tenants and limits -/

/-- `TenantClass`; `other` is a value outside the declared constants. -/
inductive TenantClass where
  | standard
  | bulk
  | system
  | other (name : String)
  deriving DecidableEq

def validTenantClass : TenantClass → Bool
  | .standard | .bulk | .system => true
  | .other _ => false

/-- The digest of a tenant. -/
abbrev TenantKey := List UInt8

/-- `Tenant`. -/
structure Tenant where
  key : TenantKey
  «class» : TenantClass
  deriving DecidableEq

def Tenant.valid (tenant : Tenant) : Bool :=
  tenant.key != List.replicate 32 0 && validTenantClass tenant.class

def maxTenantIdentityBytes : Nat := 256

/-- `QuotaDimension`; the others belong to `AllowFrame`. -/
inductive QuotaDimension where
  | sessions
  | disk
  deriving DecidableEq

/-- The errors of the quota manager. -/
inductive QuotaError where
  | errInvalidQuota
  | invalidClass («class» : TenantClass)
  | standardRequired
  /-- `QuotaExceededError`. -/
  | exceeded (dimension : QuotaDimension) («class» : TenantClass) (retryAfter : Duration)
  deriving DecidableEq

def newTenant (identity : String) («class» : TenantClass) : Except QuotaError Tenant :=
  if !validIdentity identity maxTenantIdentityBytes ||
    !validTenantClass «class» then .error .errInvalidQuota
  else .ok ⟨sha256 (bytesOf identity), «class»⟩

/-- `TenantLimits`. -/
structure TenantLimits where
  maxSessions : Int
  maxRowsPerSession : Int
  maxFramesPerSession : Int
  maxFrameBytes : Int
  maxBytesPerSession : Int
  bandwidthBytesPerSec : Int
  bandwidthBurstBytes : Int
  maxDiskBytes : Int
  retryAfter : Duration
  deriving DecidableEq

def validTenantLimits (limits : TenantLimits) : Bool :=
  0 < limits.maxSessions && limits.maxSessions ≤ 1000000 &&
    0 < limits.maxRowsPerSession && limits.maxRowsPerSession ≤ 1000000000 &&
    0 < limits.maxFramesPerSession && limits.maxFramesPerSession ≤ 100000000 &&
    256 ≤ limits.maxFrameBytes && limits.maxFrameBytes ≤ maxDeltaBytes &&
    limits.maxFrameBytes ≤ limits.maxBytesPerSession && limits.maxBytesPerSession ≤ 2 ^ 50 &&
    0 < limits.bandwidthBytesPerSec && limits.bandwidthBytesPerSec ≤ 2 ^ 40 &&
    limits.maxFrameBytes ≤ limits.bandwidthBurstBytes && limits.bandwidthBurstBytes ≤ 2 ^ 40 &&
    0 < limits.maxDiskBytes && limits.maxDiskBytes ≤ 2 ^ 60 &&
    0 < limits.retryAfter && limits.retryAfter ≤ hour

/-! ## The manager -/

/-- `tenantUsage`. -/
structure TenantUsage where
  «class» : TenantClass
  sessions : Int
  disk : Int
  deriving DecidableEq

/-- `QuotaManager`. -/
structure QuotaManager where
  limits : Map TenantClass TenantLimits
  usage : Map TenantKey TenantUsage
  deriving DecidableEq

/-- The loop of `NewQuotaManager`: the first class in the order of the `range` that is refused. -/
def refusedClass (policy : Map TenantClass TenantLimits) (order : List TenantClass) :
    Option TenantClass :=
  order.find? fun «class» => !validTenantClass «class» ||
    !((policy.lookup «class»).any validTenantLimits)

/-- `NewQuotaManager`, with the order of the `range` over the policy. -/
def newQuotaManager (policy : Map TenantClass TenantLimits) (order : List TenantClass) :
    Except QuotaError QuotaManager :=
  if policy.size == 0 || policy.size > 3 then .error .errInvalidQuota
  else match refusedClass policy order with
    | some «class» => .error (.invalidClass «class»)
    | none =>
      if (policy.lookup .standard).isNone then .error .standardRequired
      else .ok ⟨policy, ∅⟩

namespace QuotaManager

/-- The usage of a tenant, or a new record. -/
def record (qm : QuotaManager) (tenant : Tenant) : TenantUsage :=
  (qm.usage.lookup tenant.key).getD ⟨tenant.class, 0, 0⟩

/-- The manager with the record of one tenant written. -/
def write (qm : QuotaManager) (key : TenantKey) (usage : TenantUsage) : QuotaManager :=
  { qm with usage := qm.usage.insert key usage }

/-- The part of `AcquireSession` and `ReserveDisk` under the lock. -/
def charge (qm : QuotaManager) (tenant : Tenant) (dimension : QuotaDimension)
    (exceeds : TenantUsage → TenantLimits → Bool) (add : TenantUsage → TenantUsage) :
    Except QuotaError TenantLimits × QuotaManager :=
  match qm.limits.lookup tenant.class with
  | none => (.error .errInvalidQuota, qm)
  | some limits =>
    let usage := qm.record tenant
    -- the record is in the map before the limit is checked
    if exceeds usage limits then
      (.error (.exceeded dimension tenant.class limits.retryAfter), qm.write tenant.key usage)
    else (.ok limits, qm.write tenant.key (add usage))

/-- What `AcquireSession` adds. -/
def addSession (usage : TenantUsage) : TenantUsage := { usage with sessions := usage.sessions + 1 }

/-- What `ReserveDisk` adds. -/
def addDisk (bytes : Int) (usage : TenantUsage) : TenantUsage :=
  { usage with disk := usage.disk + bytes }

/-- `QuotaManager.AcquireSession`, with the limits of the lease. -/
def acquireSession (qm : QuotaManager) (tenant : Tenant) (now : Time) :
    Except QuotaError TenantLimits × QuotaManager :=
  if !tenant.valid || now.isZero then (.error .errInvalidQuota, qm)
  else qm.charge tenant .sessions (fun usage limits => usage.sessions ≥ limits.maxSessions)
    addSession

/-- `QuotaManager.ReserveDisk`, with the limits that were checked. -/
def reserveDisk (qm : QuotaManager) (tenant : Tenant) (bytes : Int) :
    Except QuotaError TenantLimits × QuotaManager :=
  if !tenant.valid || bytes ≤ 0 then (.error .errInvalidQuota, qm)
  else qm.charge tenant .disk (fun usage limits => usage.disk > limits.maxDiskBytes - bytes)
    (addDisk bytes)

/-- The part of the two `Close` methods under the lock of the manager. -/
def giveBack (qm : QuotaManager) (key : TenantKey) (subtract : TenantUsage → TenantUsage) :
    QuotaManager :=
  match qm.usage.lookup key with
  | none => qm
  | some usage =>
    if (subtract usage).sessions == 0 && (subtract usage).disk == 0 then
      { qm with usage := qm.usage.erase key }
    else qm.write key (subtract usage)

/-- What `SessionQuotaLease.Close` gives back. -/
def subtractSession (usage : TenantUsage) : TenantUsage :=
  if usage.sessions > 0 then { usage with sessions := usage.sessions - 1 } else usage

/-- What `DiskQuotaLease.Close` gives back. -/
def subtractDisk (bytes : Int) (usage : TenantUsage) : TenantUsage :=
  { usage with disk := usage.disk - bytes }

def activeTenants (qm : QuotaManager) : Nat := qm.usage.size

/-- The sessions that are counted for a tenant. -/
def sessionsOf (qm : QuotaManager) (key : TenantKey) : Int :=
  ((qm.usage.lookup key).map (·.sessions)).getD 0

/-- The bytes that are counted for a tenant. -/
def diskOf (qm : QuotaManager) (key : TenantKey) : Int :=
  ((qm.usage.lookup key).map (·.disk)).getD 0

end QuotaManager

/-! ## Leases -/

/-- `SessionQuotaLease`. -/
structure SessionQuotaLease where
  tenant : Tenant
  released : Bool := false
  /-- `Close` has given the session back. -/
  settled : Bool := false
  deriving DecidableEq

/-- `DiskQuotaLease`. -/
structure DiskQuotaLease where
  tenant : Tenant
  bytes : Int
  /-- The `sync.Once` has run. -/
  released : Bool := false
  deriving DecidableEq

/-- A manager and the leases that it granted. -/
structure Accounts where
  manager : QuotaManager
  sessions : List SessionQuotaLease
  disks : List DiskQuotaLease
  deriving DecidableEq

/-- One step of the callers. A lease is its number in the order of the grants. -/
inductive QuotaOp where
  | acquireSession (tenant : Tenant) (now : Time)
  | reserveDisk (tenant : Tenant) (bytes : Int)
  /-- `SessionQuotaLease.Close` up to `lease.mu.Unlock`. -/
  | closeSession (lease : Nat)
  /-- The rest of it, by the call that set `released`. -/
  | settleSession (lease : Nat)
  | closeDisk (lease : Nat)
  deriving DecidableEq

/-- The result of a request; the limits are those of the class that was used. -/
abbrev QuotaResult := Option (Except QuotaError TenantLimits)

namespace Accounts

/-- One step. -/
def exec (a : Accounts) : QuotaOp → QuotaResult × Accounts
  | .acquireSession tenant now =>
    match a.manager.acquireSession tenant now with
    | (.ok limits, manager) =>
      (some (.ok limits), { a with manager, sessions := a.sessions ++ [{ tenant }] })
    | (.error err, manager) => (some (.error err), { a with manager })
  | .reserveDisk tenant bytes =>
    match a.manager.reserveDisk tenant bytes with
    | (.ok limits, manager) =>
      (some (.ok limits), { a with manager, disks := a.disks ++ [{ tenant, bytes }] })
    | (.error err, manager) => (some (.error err), { a with manager })
  | .closeSession lease =>
    match a.sessions[lease]? with
    | none => (none, a)
    | some session =>
      (none, { a with sessions := a.sessions.set lease { session with released := true } })
  | .settleSession lease =>
    match a.sessions[lease]? with
    | none => (none, a)
    | some session =>
      if session.released && !session.settled then
        (none, { a with
          manager := a.manager.giveBack session.tenant.key QuotaManager.subtractSession
          sessions := a.sessions.set lease { session with settled := true } })
      else (none, a)
  | .closeDisk lease =>
    match a.disks[lease]? with
    | none => (none, a)
    | some disk =>
      if disk.released then (none, a)
      else
        (none, { a with
          manager := a.manager.giveBack disk.tenant.key (QuotaManager.subtractDisk disk.bytes)
          disks := a.disks.set lease { disk with released := true } })

/-! ## What the leases hold -/

/-- The lease is an open one of the tenant. A lease is open until its `Close` has given the session
back. -/
def holdsSession (key : TenantKey) (lease : SessionQuotaLease) : Bool :=
  key == lease.tenant.key && !lease.settled

/-- The number of open session leases of a tenant. -/
def openSessions (a : Accounts) (key : TenantKey) : Nat := a.sessions.countP (holdsSession key)

/-- What a disk lease holds of a tenant. -/
def heldBytes (key : TenantKey) (lease : DiskQuotaLease) : Int :=
  if key == lease.tenant.key && !lease.released then lease.bytes else 0

/-- The bytes of the open disk leases of a tenant. -/
def openBytes (a : Accounts) (key : TenantKey) : Int := (a.disks.map (heldBytes key)).sum

/-- The tenants with an open lease. -/
def openTenants (a : Accounts) : Finset TenantKey :=
  (((a.sessions.filter (!·.settled)).map (·.tenant.key)) ++
    ((a.disks.filter (!·.released)).map (·.tenant.key))).toFinset

end Accounts

/-- A manager as `NewQuotaManager` makes it, under any interleaving of requests and closes. -/
def quotaMachine : Machine Accounts QuotaOp QuotaResult where
  init a := (∃ policy order, Map.Ranges order policy ∧
    newQuotaManager policy order = .ok a.manager) ∧
    a.sessions = [] ∧ a.disks = []
  exec := Accounts.exec
  may _ _ _ := True

/-! ## What one step does

The two dimensions are counted alike, so the lemmas are about any dimension. -/

/-- What a record says of a dimension. -/
def TenantUsage.count (usage : TenantUsage) : QuotaDimension → Int
  | .sessions => usage.sessions
  | .disk => usage.disk

/-- The record with more of a dimension. -/
def TenantUsage.add (usage : TenantUsage) (amount : Int) : QuotaDimension → TenantUsage
  | .sessions => { usage with sessions := usage.sessions + amount }
  | .disk => { usage with disk := usage.disk + amount }

@[simp] theorem TenantUsage.count_add (usage : TenantUsage) (amount : Int) (d d' : QuotaDimension) :
    (usage.add amount d).count d' = usage.count d' + if d' = d then amount else 0 := by
  cases d <;> cases d' <;> simp [add, count]

/-- The limit of a dimension. -/
def TenantLimits.maximum (limits : TenantLimits) : QuotaDimension → Int
  | .sessions => limits.maxSessions
  | .disk => limits.maxDiskBytes

namespace QuotaManager

variable {qm : QuotaManager} {key : TenantKey} {usage : TenantUsage} {d : QuotaDimension}

/-- What is counted for a tenant: `sessionsOf` and `diskOf`. -/
def counted (qm : QuotaManager) (d : QuotaDimension) (key : TenantKey) : Int :=
  ((qm.usage.lookup key).map (·.count d)).getD 0

@[simp] theorem lookup_write (other : TenantKey) :
    (qm.write key usage).usage.lookup other = if other =
      key then some usage else qm.usage.lookup other :=
  Map.lookup_insert_eq _ _ _ _

@[simp] theorem counted_write (other : TenantKey) :
    (qm.write key usage).counted d other = if other =
      key then usage.count d else qm.counted d other := by
  rw [counted, lookup_write]
  split <;> rfl

@[simp] theorem count_record (tenant : Tenant) :
    (qm.record tenant).count d = qm.counted d tenant.key := by
  rw [record, counted]
  cases qm.usage.lookup tenant.key <;> cases d <;> rfl

/-- Writing the record that is there changes nothing. -/
theorem write_record {tenant : Tenant} (h : qm.usage.lookup tenant.key = some usage) :
    qm.write tenant.key (qm.record tenant) = qm := by
  have hrecord : qm.record tenant = usage := by rw [record, h, Option.getD_some]
  have hsame : qm.usage.insert tenant.key usage = qm.usage := by
    refine Finmap.ext_lookup fun other => ?_
    rw [Map.lookup_insert_eq]
    split
    next heq => rw [heq, h]
    next => rfl
  rw [hrecord, write, hsame]

/-- A record for a tenant that has none changes the manager. -/
theorem write_ne (h : qm.usage.lookup key = none) : qm.write key usage ≠ qm := by
  intro heq
  have hlookup := congrArg (fun m => m.usage.lookup key) heq
  simp [h] at hlookup

theorem counted_of_lookup (h : qm.usage.lookup key = some usage) :
    qm.counted d key = usage.count d := by
  rw [counted, h, Option.map_some, Option.getD_some]

/-- A tenant with something counted has a record. -/
theorem exists_usage (h : qm.counted d key ≠ 0) : ∃ usage, qm.usage.lookup key = some usage := by
  cases hlookup : qm.usage.lookup key with
  | none => exact absurd (by rw [counted, hlookup]; rfl) h
  | some usage => exact ⟨usage, rfl⟩

variable {subtract : TenantUsage → TenantUsage}

theorem lookup_giveBack (h : qm.usage.lookup key = some usage) (other : TenantKey) :
    (qm.giveBack key subtract).usage.lookup other =
      if other = key then
        if (subtract usage).sessions = 0 ∧ (subtract usage).disk =
          0 then none else some (subtract usage)
      else qm.usage.lookup other := by
  simp only [giveBack, h, Bool.and_eq_true, beq_iff_eq]
  split
  · rw [Map.lookup_erase_eq]
  · rw [lookup_write]

theorem counted_giveBack (h : qm.usage.lookup key = some usage) (other : TenantKey) :
    (qm.giveBack key subtract).counted d other =
      if other = key then (subtract usage).count d else qm.counted d other := by
  rw [counted, lookup_giveBack h]
  split
  · split
    next hempty =>
      cases d
      · exact hempty.1.symm
      · exact hempty.2.symm
    next => rfl
  · rfl

@[simp] theorem limits_giveBack : (qm.giveBack key subtract).limits = qm.limits := by
  unfold giveBack
  split
  · rfl
  · split <;> rfl

end QuotaManager

namespace Accounts

open QuotaManager

/-- What the open leases of a tenant hold: `openSessions` and `openBytes`. -/
def held (a : Accounts) : QuotaDimension → TenantKey → Int
  | .sessions, key => a.openSessions key
  | .disk, key => a.openBytes key

/-- What is asked for. -/
inductive Asks : QuotaOp → Tenant → QuotaDimension → Int → Prop
  | session {tenant : Tenant} {now : Time} : Asks (.acquireSession tenant now) tenant .sessions 1
  | disk {tenant : Tenant} {bytes : Int} (valid : tenant.valid = true) (pos : 0 < bytes) :
      Asks (.reserveDisk tenant bytes) tenant .disk bytes

theorem Asks.pos {op : QuotaOp} {tenant : Tenant} {d : QuotaDimension} {amount : Int}
    (h : Asks op tenant d amount) : 0 < amount := by
  cases h with
  | session => exact one_pos
  | disk _ hpos => exact hpos

/-- The leases of the second accounts hold so much more. -/
structure Holds (a a' : Accounts) (key : TenantKey) (d : QuotaDimension) (amount : Int) : Prop where
  held : ∀ d' k, a'.held d' k = a.held d' k + if k = key ∧ d' = d then amount else 0
  bytes : (∀ lease ∈ a.disks, 0 < lease.bytes) → ∀ lease ∈ a'.disks, 0 < lease.bytes

/-- All that one step can do. -/
inductive Effect (a : Accounts) : QuotaOp → QuotaResult → Accounts → Prop
  | refused {op : QuotaOp} (err : QuotaError) : Effect a op (some (.error err)) a
  | denied {op : QuotaOp} (tenant : Tenant) (d : QuotaDimension) (amount : Int)
      (limits : TenantLimits)
      (err : QuotaError) (hasks : Asks op tenant d amount)
      (hlimits : a.manager.limits.lookup tenant.class = some limits)
      (hfull : limits.maximum d - amount < a.manager.counted d tenant.key) :
      Effect a op (some (.error err))
        { a with manager := a.manager.write tenant.key (a.manager.record tenant) }
  | granted {op : QuotaOp} {a' : Accounts} (tenant : Tenant) (d : QuotaDimension) (amount : Int)
      (limits : TenantLimits) (hasks : Asks op tenant d amount)
      (hlimits : a.manager.limits.lookup tenant.class = some limits)
      (hroom : a.manager.counted d tenant.key ≤ limits.maximum d - amount)
      (hmanager : a'.manager = a.manager.write tenant.key ((a.manager.record tenant).add amount d))
      (hholds : a.Holds a' tenant.key d amount) : Effect a op (some (.ok limits)) a'
  | nothing {op : QuotaOp} : Effect a op none a
  | released {op : QuotaOp} {a' : Accounts} (hmanager : a'.manager = a.manager)
      (hheld : a'.held = a.held)
      (hdisks : a'.disks = a.disks) : Effect a op none a'
  | closed {op : QuotaOp} {a' : Accounts} (key : TenantKey) (d : QuotaDimension) (amount : Int)
      (subtract : TenantUsage → TenantUsage) (hmanager : a'.manager =
        a.manager.giveBack key subtract)
      (hsubtract : ∀ usage, 0 < usage.count d → subtract usage = usage.add (-amount) d)
      (hpos : (∀ lease ∈ a.disks, 0 < lease.bytes) → 0 < a.held d key)
      (hholds : a.Holds a' key d (-amount)) : Effect a op none a'

/-! ### The leases -/

section Leases

variable {a : Accounts} {i : Nat} {manager : QuotaManager}

theorem holds_session (tenant : Tenant) :
    a.Holds { a with manager, sessions := a.sessions ++ [{ tenant }] } tenant.key .sessions 1 := by
  refine ⟨fun d k => ?_, id⟩
  cases d <;> simp [held, openSessions, openBytes, holdsSession]

theorem holds_disk (tenant : Tenant) {bytes : Int} (hpos : 0 < bytes) :
    a.Holds { a with manager, disks := a.disks ++ [{ tenant, bytes }] } tenant.key .disk bytes := by
  refine ⟨fun d k => ?_, fun hbytes => forall_mem_snoc.mpr ⟨hbytes, hpos⟩⟩
  cases d <;> simp [held, openSessions, openBytes, heldBytes]

/-- How many leases satisfy a property after one of them has changed. -/
theorem countP_set_add {α : Type} {l : List α} {i : Nat} {x y : α} (p : α → Bool)
    (hx : l[i]? = some x) :
    ((l.set i y).countP p : Int) = l.countP p +
      ((if p y then 1 else 0) - if p x then 1 else 0) := by
  obtain ⟨hi, rfl⟩ := List.getElem?_eq_some_iff.mp hx
  rw [List.countP_set hi]
  have hpos : p l[i] = true → 0 < l.countP p :=
    fun hp => List.countP_pos_iff.mpr ⟨_, List.getElem_mem hi, hp⟩
  split
  next hp =>
    have := hpos hp
    split <;> push_cast <;> omega
  next => split <;> push_cast <;> omega

/-- A lease of which only `released` changes is still open. -/
theorem held_release {session : SessionQuotaLease} (hsession : a.sessions[i]? = some session) :
    held { a with sessions := a.sessions.set i { session with released := true } } = a.held := by
  funext d key
  cases d with
  | sessions =>
    have hcount := countP_set_add (y := { session with released := true })
      (holdsSession key) hsession
    have hsame : holdsSession key { session with released := true } = holdsSession key session :=
      rfl
    rw [hsame, sub_self, add_zero] at hcount
    exact hcount
  | disk => rfl

theorem holds_settle {session : SessionQuotaLease} (hsession : a.sessions[i]? = some session)
    (hopen : session.settled = false) :
    a.Holds { a with manager, sessions := a.sessions.set i { session with settled := true } }
      session.tenant.key .sessions (-1) := by
  refine ⟨fun d k => ?_, id⟩
  cases d with
  | sessions =>
    refine (countP_set_add (holdsSession k) hsession).trans (congrArg _ ?_)
    simp only [holdsSession, hopen]
    by_cases hkey : k = session.tenant.key <;> simp [hkey]
  | disk => simp [held, openBytes]

theorem holds_free {disk : DiskQuotaLease} (hdisk : a.disks[i]? = some disk)
    (hopen : disk.released = false) :
    a.Holds { a with manager, disks := a.disks.set i { disk with released := true } }
      disk.tenant.key .disk (-disk.bytes) := by
  refine ⟨fun d k => ?_, fun hbytes lease hl => ?_⟩
  · cases d with
    | sessions => simp [held, openSessions]
    | disk =>
      obtain ⟨hi, rfl⟩ := List.getElem?_eq_some_iff.mp hdisk
      have hi' : i < (a.disks.map (heldBytes k)).length := by rwa [List.length_map]
      simp only [held, openBytes, List.map_set, List.sum_set', dif_pos hi', List.getElem_map,
        heldBytes, hopen]
      by_cases hkey : k = a.disks[i].tenant.key <;> simp [hkey]
  · rcases List.mem_or_eq_of_mem_set hl with hl | rfl
    · exact hbytes lease hl
    · exact hbytes disk (List.mem_of_getElem? hdisk)

theorem heldBytes_nonneg {key : TenantKey} {lease : DiskQuotaLease} (h : 0 < lease.bytes) :
    0 ≤ heldBytes key lease := by
  unfold heldBytes
  split <;> omega

theorem held_pos_of_session {session : SessionQuotaLease} (hsession : session ∈ a.sessions)
    (hopen : session.settled = false) : 0 < a.held .sessions session.tenant.key :=
  Int.natCast_pos.mpr (List.countP_pos_iff.mpr ⟨session, hsession, by simp [holdsSession, hopen]⟩)

theorem held_pos_of_disk (hbytes : ∀ lease ∈ a.disks, 0 < lease.bytes) {disk : DiskQuotaLease}
    (hdisk : disk ∈ a.disks) (hopen : disk.released = false) :
    0 < a.held .disk disk.tenant.key := by
  have hle : heldBytes disk.tenant.key disk ≤ a.openBytes disk.tenant.key := by
    refine List.single_le_sum (fun x hx => ?_) _ (List.mem_map_of_mem hdisk)
    obtain ⟨other, ho, rfl⟩ := List.mem_map.mp hx
    exact heldBytes_nonneg (hbytes other ho)
  simp only [heldBytes, beq_self_eq_true, hopen] at hle
  exact lt_of_lt_of_le (hbytes disk hdisk) hle

end Leases

theorem exec_effect (a : Accounts) (op : QuotaOp) : Effect a op (a.exec op).1 (a.exec op).2 := by
  cases op with
  | acquireSession tenant now =>
    simp only [exec, QuotaManager.acquireSession, charge]
    by_cases hargs : (!tenant.valid || now.isZero) = true
    · rw [if_pos hargs]
      exact .refused _
    rw [if_neg hargs]
    cases hlimits : a.manager.limits.lookup tenant.class with
    | none => exact .refused _
    | some limits =>
      have hcount : (a.manager.record tenant).sessions = a.manager.counted .sessions tenant.key :=
        count_record (d := .sessions) tenant
      by_cases hfull : limits.maxSessions ≤ (a.manager.record tenant).sessions
      · simp only [hfull]
        exact .denied tenant _ _ limits _ .session hlimits
          (by rw [← hcount, TenantLimits.maximum]; omega)
      · simp only [hfull]
        exact .granted tenant _ _ limits .session hlimits
          (by rw [← hcount, TenantLimits.maximum]; omega) rfl
          (holds_session tenant)
  | reserveDisk tenant bytes =>
    simp only [exec, QuotaManager.reserveDisk, charge]
    by_cases hargs : (!tenant.valid || decide (bytes ≤ 0)) = true
    · rw [if_pos hargs]
      exact .refused _
    rw [if_neg hargs]
    simp only [Bool.or_eq_true, Bool.not_eq_true', decide_eq_true_eq, not_or, Bool.not_eq_false,
      not_le] at hargs
    cases hlimits : a.manager.limits.lookup tenant.class with
    | none => exact .refused _
    | some limits =>
      have hcount : (a.manager.record tenant).disk = a.manager.counted .disk tenant.key :=
        count_record (d := .disk) tenant
      by_cases hfull : limits.maxDiskBytes - bytes < (a.manager.record tenant).disk
      · simp only [hfull]
        exact .denied tenant _ _ limits _ (.disk hargs.1 hargs.2) hlimits (hcount ▸ hfull)
      · simp only [hfull]
        exact .granted tenant _ _ limits (.disk hargs.1 hargs.2) hlimits
          (hcount ▸ not_lt.mp hfull) rfl
          (holds_disk tenant hargs.2)
  | closeSession i =>
    rw [exec]
    split
    · exact .nothing
    next session hsession => exact .released rfl (held_release hsession) rfl
  | settleSession i =>
    rw [exec]
    split
    · exact .nothing
    next session hsession =>
      split
      next hopen =>
        rw [Bool.and_eq_true, Bool.not_eq_true'] at hopen
        exact .closed _ .sessions 1 _ rfl (fun usage (hpos : 0 < usage.sessions) => if_pos hpos)
          (fun _ => held_pos_of_session (List.mem_of_getElem? hsession) hopen.2)
            (holds_settle hsession hopen.2)
      next => exact .nothing
  | closeDisk i =>
    rw [exec]
    split
    · exact .nothing
    next disk hdisk =>
      split
      next => exact .nothing
      next hopen =>
        have hopen := Bool.eq_false_of_not_eq_true hopen
        exact .closed _ _ disk.bytes _ rfl (fun _ _ => rfl)
          (fun hbytes => held_pos_of_disk hbytes (List.mem_of_getElem? hdisk) hopen)
            (holds_free hdisk hopen)

/-! ## The accounts -/

/-- The usage records agree with the open leases. -/
structure Ok (a : Accounts) : Prop where
  limits : ∀ «class» limits, a.manager.limits.lookup «class» = some limits →
    validTenantLimits limits = true
  counted : ∀ d key, a.manager.counted d key = a.held d key
  bytes : ∀ lease ∈ a.disks, 0 < lease.bytes

variable {a a' : Accounts} {key : TenantKey} {op : QuotaOp} {out : QuotaResult}

namespace Ok

theorem held_nonneg (h : Ok a) (d : QuotaDimension) (key : TenantKey) : 0 ≤ a.held d key := by
  cases d with
  | sessions => exact Int.natCast_nonneg _
  | disk =>
    refine List.sum_nonneg fun x hx => ?_
    obtain ⟨lease, hl, rfl⟩ := List.mem_map.mp hx
    exact heldBytes_nonneg (h.bytes lease hl)

/-- The record of a tenant changes by as much as its open leases do. -/
theorem change (h : Ok a) {usage usage' : TenantUsage} {d : QuotaDimension} {amount : Int}
    (hlimits : a'.manager.limits = a.manager.limits)
    (hcount : ∀ d', usage.count d' = a.manager.counted d' key) (hadd : usage' = usage.add amount d)
    (hcounted : ∀ d' k, a'.manager.counted d' k = if k =
      key then usage'.count d' else a.manager.counted d' k)
    (hholds : a.Holds a' key d amount) : Ok a' := by
  refine ⟨hlimits ▸ h.limits, fun d' k => ?_, hholds.bytes h.bytes⟩
  rw [hcounted, hholds.held, ← h.counted]
  by_cases hkey : k = key
  · simp [hkey, hadd, hcount]
  · simp [hkey]

/-- Every step keeps the accounts. -/
theorem step (h : Ok a) (he : Effect a op out a') : Ok a' := by
  cases he with
  | refused | nothing => exact h
  | denied tenant =>
    refine ⟨h.limits, fun d k => ?_, h.bytes⟩
    rw [counted_write, count_record]
    split
    next heq => rw [← heq]; exact h.counted d k
    next => exact h.counted d k
  | granted tenant d amount limits hasks hlimits hroom hmanager hholds =>
    exact h.change (by rw [hmanager]; rfl) (fun _ => count_record tenant) rfl
      (fun d' k => by rw [hmanager, counted_write]) hholds
  | released hmanager hheld hdisks =>
    exact ⟨hmanager ▸ h.limits,
      fun d k => by rw [hmanager, hheld]; exact h.counted d k, hdisks ▸ h.bytes⟩
  | closed key d amount subtract hmanager hsubtract hpos hholds =>
    have hpos : 0 < a.manager.counted d key := (h.counted d key).symm ▸ hpos h.bytes
    obtain ⟨usage, hlookup⟩ := exists_usage hpos.ne'
    exact h.change (by rw [hmanager, limits_giveBack]) (fun _ => (counted_of_lookup hlookup).symm)
      (hsubtract usage (counted_of_lookup hlookup ▸ hpos))
      (fun d' k => by rw [hmanager, counted_giveBack hlookup]) hholds

theorem mem_openTenants (h : Ok a) : key ∈ a.openTenants ↔ ∃ d, 0 < a.held d key := by
  rw [openTenants, List.mem_toFinset, List.mem_append]
  constructor
  · rintro (hm | hm)
    all_goals
      obtain ⟨lease, hl, rfl⟩ := List.mem_map.mp hm
      obtain ⟨hmem, hopen⟩ := List.mem_filter.mp hl
      rw [Bool.not_eq_true'] at hopen
    · exact ⟨.sessions, held_pos_of_session hmem hopen⟩
    · exact ⟨.disk, held_pos_of_disk h.bytes hmem hopen⟩
  · rintro ⟨d, hpos⟩
    cases d with
    | sessions =>
      obtain ⟨lease, hl, hopen⟩ := List.countP_pos_iff.mp (Int.natCast_pos.mp hpos)
      rw [holdsSession, Bool.and_eq_true, beq_iff_eq] at hopen
      exact .inl (List.mem_map.mpr ⟨lease, List.mem_filter.mpr ⟨hl, hopen.2⟩, hopen.1.symm⟩)
    | disk =>
      refine .inr (by_contra fun hnone => hpos.ne' (List.sum_eq_zero fun x hx => ?_))
      obtain ⟨lease, hl, rfl⟩ := List.mem_map.mp hx
      refine if_neg fun hopen => ?_
      rw [Bool.and_eq_true, beq_iff_eq] at hopen
      exact hnone (List.mem_map.mpr ⟨lease, List.mem_filter.mpr ⟨hl, hopen.2⟩, hopen.1.symm⟩)

end Ok

/-! ## Empty records -/

/-- No record is empty. -/
def Tidy (a : Accounts) : Prop :=
  ∀ key usage, a.manager.usage.lookup key = some usage → ∃ d, usage.count d ≠ 0

/-- The tenants with a record are those with an open lease. -/
theorem Tidy.mem_usage_iff (ht : Tidy a) (h : Ok a) :
    key ∈ a.manager.usage ↔ key ∈ a.openTenants := by
  rw [h.mem_openTenants]
  constructor
  · intro hm
    obtain ⟨usage, hlookup⟩ := Finmap.mem_iff.mp hm
    obtain ⟨d, hne⟩ := ht key usage hlookup
    rw [← counted_of_lookup hlookup, h.counted] at hne
    exact ⟨d, lt_of_le_of_ne (h.held_nonneg d key) hne.symm⟩
  · rintro ⟨d, hpos⟩
    rw [← h.counted] at hpos
    obtain ⟨usage, hlookup⟩ := exists_usage hpos.ne'
    exact Map.mem_of_lookup hlookup

theorem Tidy.activeTenants (ht : Tidy a) (h : Ok a) :
    a.manager.activeTenants = a.openTenants.card := by
  refine congrArg Finset.card (Finset.ext fun key => ?_)
  rw [Finmap.mem_keys, ht.mem_usage_iff h]

/-- A reservation above the limit of its class is made by a tenant with an open lease only. -/
def Fits (a : Accounts) : QuotaOp → Prop
  | .reserveDisk tenant bytes =>
    tenant.valid = true → ∀ limits, a.manager.limits.lookup tenant.class = some limits →
      limits.maxDiskBytes < bytes → tenant.key ∈ a.openTenants
  | _ => True

section Step

variable {limits : TenantLimits}

theorem limits_pos (h : Ok a) {«class» : TenantClass}
    (hlimits : a.manager.limits.lookup «class» = some limits) :
    0 < limits.maxSessions ∧ 0 < limits.maxDiskBytes := by
  have hvalid := h.limits «class» limits hlimits
  simp only [validTenantLimits, Bool.and_eq_true, decide_eq_true_eq] at hvalid
  omega

/-- A tenant that is over a limit has a record. -/
theorem denied_record (h : Ok a) (ht : Tidy a) (hfits : a.Fits op) (he : Effect a op out a')
    {err : QuotaError} (hout : out = some (.error err)) : a'.manager = a.manager := by
  cases he with
  | refused => rfl
  | granted | nothing | released | closed => cases hout
  | denied tenant d amount limits _ hasks hlimits hfull =>
    by_contra hne
    have hnone : a.manager.usage.lookup tenant.key = none :=
      Option.eq_none_iff_forall_ne_some.mpr fun usage hlookup => hne (write_record hlookup)
    rw [QuotaManager.counted, hnone, Option.map_none, Option.getD_none] at hfull
    obtain ⟨hsessions, -⟩ := limits_pos h hlimits
    cases hasks with
    | session => simp only [TenantLimits.maximum] at hfull; omega
    | disk hvalid hpos =>
      have hmem := hfits hvalid limits hlimits (by simp only [TenantLimits.maximum] at hfull; omega)
      rw [← ht.mem_usage_iff h] at hmem
      exact absurd hmem (Finmap.lookup_eq_none.mp hnone)

theorem Tidy.giveBack (ht : Tidy a) {subtract : TenantUsage → TenantUsage}
    (heq : a'.manager = a.manager.giveBack key subtract) : Tidy a' := by
  unfold Tidy
  rw [heq]
  cases hlookup : a.manager.usage.lookup key with
  | none => rw [QuotaManager.giveBack, hlookup]; exact ht
  | some usage =>
    intro other u hu
    rw [lookup_giveBack hlookup] at hu
    split at hu
    · split at hu
      · cases hu
      next hne =>
        cases hu
        exact (not_and_or.mp hne).elim (fun h => ⟨.sessions, h⟩) fun h => ⟨.disk, h⟩
    · exact ht other u hu

/-- Every step keeps the records tidy, if its reservation fits. -/
theorem Tidy.step (ht : Tidy a) (h : Ok a) (hfits : a.Fits op) (he : Effect a op out a') :
    Tidy a' := by
  have hsame (heq : a'.manager = a.manager) : Tidy a' := by
    unfold Tidy
    rw [heq]
    exact ht
  have hdenied : ∀ err, out = some (.error err) → Tidy a' :=
    fun _ hout => hsame (denied_record h ht hfits he hout)
  cases he with
  | refused | nothing => exact ht
  | denied => exact hdenied _ rfl
  | granted tenant d amount limits hasks _ _ hmanager =>
    intro other u hu
    rw [hmanager, lookup_write] at hu
    split at hu
    · cases hu
      have hcounted := h.counted d tenant.key
      have hnonneg := h.held_nonneg d tenant.key
      have hpos := hasks.pos
      exact ⟨d, by rw [TenantUsage.count_add, count_record, if_pos rfl]; omega⟩
    · exact ht other u hu
  | released hmanager => exact hsame hmanager
  | closed _ _ _ _ hmanager => exact ht.giveBack hmanager

/-- A reservation that does not fit fails and leaves a record. -/
theorem changed_of_not_fits (h : Ok a) (ht : Tidy a) (hfits : ¬ a.Fits op) :
    ∃ err, (a.exec op).1 = some (.error err) ∧ (a.exec op).2.manager ≠ a.manager := by
  cases op with
  | acquireSession | closeSession | settleSession | closeDisk => exact absurd trivial hfits
  | reserveDisk tenant bytes =>
    simp only [Fits, not_forall] at hfits
    obtain ⟨hvalid, limits, hlimits, hlt, hclosed⟩ := hfits
    obtain ⟨-, hpos⟩ := limits_pos h hlimits
    have hlookup : a.manager.usage.lookup tenant.key = none := by
      rw [← ht.mem_usage_iff h] at hclosed
      exact Finmap.lookup_eq_none.mpr hclosed
    have hzero : (a.manager.record tenant).disk = 0 := by rw [record, hlookup]; rfl
    have hbytes : ¬ bytes ≤ 0 := by omega
    have hfull : limits.maxDiskBytes - bytes < 0 := by omega
    simp only [exec, QuotaManager.reserveDisk, charge, hvalid, hbytes, hlimits, hzero, hfull]
    exact ⟨_, rfl, write_ne hlookup⟩

/-- A grant is within the limit of the class that it used. -/
def Within (pre post : Accounts) (limits : TenantLimits) : QuotaOp → Prop
  | .acquireSession tenant _ =>
    pre.manager.limits.lookup tenant.class = some limits ∧
      post.openSessions tenant.key ≤ limits.maxSessions
  | .reserveDisk tenant _ =>
    pre.manager.limits.lookup tenant.class = some limits ∧
      post.openBytes tenant.key ≤ limits.maxDiskBytes
  | _ => True

theorem within_step (h : Ok a) (he : Effect a op (some (.ok limits)) a') :
    Within a a' limits op := by
  have hok := h.step he
  cases he with
  | granted tenant d amount _ hasks hlimits hroom hmanager =>
    have hheld : a'.held d tenant.key ≤ limits.maximum d := by
      rw [← hok.counted, hmanager, counted_write, if_pos rfl, TenantUsage.count_add, if_pos rfl,
        count_record]
      omega
    cases hasks with
    | session => exact ⟨hlimits, hheld⟩
    | disk => exact ⟨hlimits, hheld⟩

end Step

end Accounts

/-! ## Whole runs -/

open Accounts

/-- The events of the manager's callers. -/
abbrev QuotaEvent := Event Accounts QuotaOp QuotaResult

/-- What `NewQuotaManager` builds. -/
theorem newQuotaManager_ok {policy : Map TenantClass TenantLimits} {order : List TenantClass}
    {qm : QuotaManager}
    (hrange : Map.Ranges order policy) (h : newQuotaManager policy order = .ok qm) :
    qm.usage = ∅ ∧ ∀ «class» limits, qm.limits.lookup «class» = some limits →
      validTenantLimits limits = true := by
  unfold newQuotaManager at h
  split at h
  · cases h
  split at h
  · cases h
  next hnone =>
    split at h
    · cases h
    cases h
    refine ⟨rfl, fun «class» limits hlookup => ?_⟩
    have hclass := List.find?_eq_none.mp hnone «class»
      ((hrange.mem «class»).mpr (Map.mem_of_lookup hlookup))
    simp only [hlookup, Bool.or_eq_true, Bool.not_eq_true', not_or, Bool.not_eq_false] at hclass
    exact hclass.2

theorem init_ok {a : Accounts} (h : quotaMachine.init a) : Ok a ∧ Tidy a := by
  obtain ⟨⟨policy, order, hrange, hnew⟩, hsessions, hdisks⟩ := h
  obtain ⟨husage, hlimits⟩ := newQuotaManager_ok hrange hnew
  refine ⟨⟨hlimits, fun d key => ?_, fun lease hl => ?_⟩, fun key usage hlookup => ?_⟩
  · rw [QuotaManager.counted, husage]
    cases d <;> simp [held, openSessions, openBytes, hsessions, hdisks]
  · rw [hdisks] at hl
    cases hl
  · rw [husage] at hlookup
    cases hlookup

variable {history : List QuotaEvent} {a : Accounts}

section

variable (h : quotaMachine.Run history a)

include h

/-- The accounts agree with the open leases in every state, whatever fails. -/
theorem ok_of_run : Ok a :=
  h.invariant (I := fun _ a => Ok a) (fun _ hi => (init_ok hi).1) fun _ s op hok _ =>
    hok.step (s.exec_effect op)

theorem tidy_of_run (hfits : ∀ e ∈ history, e.pre.Fits e.input) : Tidy a := by
  induction h with
  | init hi => exact (init_ok hi).2
  | @step history s op hr _ ih =>
    have ht : Tidy s := ih fun e he => hfits e (List.mem_append_left _ he)
    have hop : s.Fits op := hfits _ (List.mem_append_right _ (List.mem_singleton_self _))
    exact ht.step (ok_of_run hr) hop (s.exec_effect op)

/-- A failed request leaves the manager as it was. -/
def QuotaEvent.FailsCleanly (e : QuotaEvent) : Prop :=
  ∀ err, e.output = some (.error err) → e.post.manager = e.pre.manager

/-- If failed requests change nothing, every reservation fits. -/
theorem fits_of_failsCleanly (hclean : ∀ e ∈ history, QuotaEvent.FailsCleanly e) :
    ∀ e ∈ history, e.pre.Fits e.input := by
  induction h with
  | init => exact fun e he => absurd he List.not_mem_nil
  | @step history s op hr _ ih =>
    have hbefore := ih fun e he => hclean e (List.mem_append_left _ he)
    have hlast : quotaMachine.event s op ∈ history ++ [quotaMachine.event s op] :=
      List.mem_append_right _ (List.mem_singleton_self _)
    have hop : s.Fits op := by
      by_contra hfits
      obtain ⟨err, hout, hne⟩ := changed_of_not_fits (ok_of_run hr) (tidy_of_run hr hbefore) hfits
      exact hne (hclean _ hlast err hout)
    exact forall_mem_snoc.mpr ⟨hbefore, hop⟩

/-- The accounts of a run are exact: in every state they agree with the open leases, every grant is
within its limit, and a request that fails changes nothing. -/
structure Exact (history : List QuotaEvent) (a : Accounts) : Prop where
  sessions : ∀ s ∈ history.map Event.pre ++ [a], ∀ key,
    s.manager.sessionsOf key = s.openSessions key
  disk : ∀ s ∈ history.map Event.pre ++ [a], ∀ key, s.manager.diskOf key = s.openBytes key
  granted : ∀ e ∈ history, ∀ limits, e.output = some (.ok limits) →
    Within e.pre e.post limits e.input
  active : ∀ s ∈ history.map Event.pre ++ [a], s.manager.activeTenants = s.openTenants.card
  failed : ∀ e ∈ history, QuotaEvent.FailsCleanly e

/-- The states of a run are reached by the runs before them. -/
theorem run_of_state {s : Accounts} (hs : s ∈ history.map Event.pre ++ [a]) :
    ∃ before, quotaMachine.Run before s ∧ ∀ e ∈ before, e ∈ history := by
  rcases List.mem_append.mp hs with hs | hs
  · obtain ⟨e, he, rfl⟩ := List.mem_map.mp hs
    obtain ⟨before, after, rfl⟩ := List.append_of_mem he
    exact ⟨before, (h.split rfl).1, fun d hd => List.mem_append_left _ hd⟩
  · obtain rfl := List.mem_singleton.mp hs
    exact ⟨history, h, fun e he => he⟩

end

/-- **Exact accounting.** The accounts of a run are exact if and only if no reservation above the
limit of its class was made by a tenant without an open lease. -/
theorem quota_exact_iff (h : quotaMachine.Run history a) :
    Exact history a ↔ ∀ e ∈ history, e.pre.Fits e.input := by
  refine ⟨fun hexact => fits_of_failsCleanly h hexact.failed, fun hfits => ⟨?_, ?_, ?_, ?_, ?_⟩⟩
  · intro s hs key
    obtain ⟨before, hr, -⟩ := run_of_state h hs
    exact (ok_of_run hr).counted .sessions key
  · intro s hs key
    obtain ⟨before, hr, -⟩ := run_of_state h hs
    exact (ok_of_run hr).counted .disk key
  · refine h.events fun _ s op hr _ limits hout => within_step (ok_of_run hr) ?_
    rw [← hout]
    exact s.exec_effect op
  · intro s hs
    obtain ⟨before, hr, hsub⟩ := run_of_state h hs
    exact (tidy_of_run hr fun e he => hfits e (hsub e he)).activeTenants (ok_of_run hr)
  · intro e he err hout
    obtain ⟨before, after, rfl⟩ := List.append_of_mem he
    obtain ⟨hr, -, hevent⟩ := h.split rfl
    have ht : Tidy e.pre := tidy_of_run hr fun d hd => hfits d (List.mem_append_left _ hd)
    have heffect : Effect e.pre e.input e.output e.post := by
      rw [hevent]
      exact e.pre.exec_effect e.input
    exact denied_record (ok_of_run hr) ht (hfits e he) heffect hout

/-! A tenant without a lease asks for more than its class allows. -/

namespace OverLimit

def limits : TenantLimits := ⟨1, 1, 1, 256, 256, 1, 256, 100, second⟩

def policy : Map TenantClass TenantLimits := Finmap.singleton .standard limits

def manager : QuotaManager := ⟨policy, ∅⟩

def initial : Accounts := ⟨manager, [], []⟩

/-- `NewTenant("acme", TenantStandard)`. -/
def tenant : Tenant := ⟨sha256 (bytesOf "acme"), .standard⟩

theorem evaluated : newTenant "acme" .standard = .ok tenant ∧
    newQuotaManager policy [.standard] = .ok manager ∧
    (initial.exec (.reserveDisk tenant 101)).1 = some (.error (.exceeded .disk .standard second)) ∧
    (initial.exec (.reserveDisk tenant 101)).2.manager.activeTenants = 1 ∧
    (initial.exec (.reserveDisk tenant 101)).2.openTenants.card = 0 ∧
    (initial.exec (.reserveDisk tenant 100)).1 = some (.ok limits) := by
  decide +kernel

theorem init : quotaMachine.init initial := by
  refine ⟨⟨policy, [.standard], ⟨List.nodup_singleton _, fun «class» => ?_⟩, evaluated.2.1⟩,
    rfl, rfl⟩
  rw [List.mem_singleton, policy, Finmap.mem_singleton]

/-- The request fails, and the tenant is counted as active without a lease. -/
theorem counted_without_lease : ∃ history a, quotaMachine.Run history a ∧ ¬ Exact history a ∧
    a.manager.activeTenants = 1 ∧ a.openTenants.card = 0 := by
  have hrun := (Machine.Run.init init).step (.reserveDisk tenant 101) trivial
  refine ⟨_, _, hrun, fun hexact => ?_, evaluated.2.2.2.1, evaluated.2.2.2.2.1⟩
  have hactive := hexact.active _ (List.mem_append_right _ (List.mem_singleton_self _))
  rw [show quotaMachine.exec = exec from rfl, evaluated.2.2.2.1, evaluated.2.2.2.2.1] at hactive
  cases hactive

/-- A reservation within the limit is granted, and the accounts are exact. -/
theorem exact_within : ∃ history a, quotaMachine.Run history a ∧ history ≠
    [] ∧ Exact history a := by
  have hrun := (Machine.Run.init init).step (.reserveDisk tenant 100) trivial
  refine ⟨_, _, hrun, List.cons_ne_nil _ _, (quota_exact_iff hrun).mpr fun e he => ?_⟩
  obtain rfl := List.mem_singleton.mp he
  intro _ found hlookup hlt
  have hfound : found = limits := Option.some.inj (hlookup.symm.trans (Finmap.lookup_singleton_eq))
  rw [hfound] at hlt
  exact absurd hlt (by decide)

end OverLimit

end Keelith.Projection

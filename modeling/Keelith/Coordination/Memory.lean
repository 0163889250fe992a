import Keelith.Lib.Map
import Keelith.Lib.Text

/-!
# The coordinator in memory

`coordination/memory/memory.go`: leases on keys, each with a fence. A lease ends when it is
released; it has no clock.

A lease is named by its key and its fence. A key starts again at fence 0 after `2^64 - 1` leases.
`tryAcquire_cases`: a lease is given only for a key without one, and its fence is the next one of
the key.

The counters of `Description` and the channel of `Done` are not in the model.
-/

namespace Keelith.Coordination

/-- The errors of the package, and causes of contexts by their text. -/
inductive Error where
  | errInvalidOption (text : String)
  | other (text : String)
  deriving DecidableEq

def validKey (value : String) : Bool := boundedText value 512

/-- `lease`. -/
structure Lease where
  key : String
  fence : UInt64
  deriving DecidableEq

/-- `Coordinator`. -/
structure Coordinator where
  leases : Map String Lease
  fences : Map String UInt64

namespace Coordinator

def new : Coordinator := ⟨∅, ∅⟩

/-- The last fence of a key, 0 without one. -/
def fence (c : Coordinator) (key : String) : UInt64 := (c.fences.lookup key).getD 0

/-- `Coordinator.TryAcquire`, in a context with this cause. No lease is no error: the key has an
owner. -/
def tryAcquire (c : Coordinator) (key : String) (ttl : Int) (cause : Option String) :
    Except Error (Option Lease) × Coordinator :=
  if ttl ≤ 0 || !validKey key then (.error (.errInvalidOption "context, key, or ttl"), c)
  else
    match cause with
    | some text => (.error (.other text), c)
    | none =>
      if key ∈ c.leases then (.ok none, c)
      else
        let acquired : Lease := ⟨key, c.fence key + 1⟩
        (.ok (some acquired),
          { leases := c.leases.insert key acquired, fences := c.fences.insert key acquired.fence })

/-- `lease.Release`, in a context with this cause. -/
def release (c : Coordinator) (lease : Lease) (cause : Option String) :
    Except Error Unit × Coordinator :=
  match cause with
  | some text => (.error (.other text), c)
  | none =>
    if c.leases.lookup lease.key = some lease then
      (.ok (), { c with leases := c.leases.erase lease.key })
    else (.ok (), c)

/-- `TryAcquire` changes nothing, or gives the next fence of a key without a lease. -/
theorem tryAcquire_cases (c : Coordinator) (key : String) (ttl : Int) (cause : Option String) :
    (∃ err, c.tryAcquire key ttl cause = (.error err, c)) ∨
    (∃ held, c.leases.lookup key = some held) ∧ c.tryAcquire key ttl cause = (.ok none, c) ∨
    c.leases.lookup key = none ∧ c.tryAcquire key ttl cause =
      (.ok (some ⟨key, c.fence key + 1⟩),
        { leases := c.leases.insert key ⟨key, c.fence key + 1⟩
          fences := c.fences.insert key (c.fence key + 1) }) := by
  unfold tryAcquire
  split
  · exact .inl ⟨_, rfl⟩
  · split
    · exact .inl ⟨_, rfl⟩
    · split
      next hmem => exact .inr (.inl ⟨Finmap.mem_iff.mp hmem, rfl⟩)
      next hnot => exact .inr (.inr ⟨Finmap.lookup_eq_none.mpr hnot, rfl⟩)

end Coordinator

end Keelith.Coordination

import Keelith.Lib.Map
import Keelith.Saga.Model

/-!
# The repository in memory

`saga/memory/repository.go`: records with a revision, each with the largest fence that has written
it. A call may fail before it gets to the maps (`failure`): its context is done, or a repository
elsewhere fails.

`save_cases`: a successful `Save` replaces the record of the expected revision, under a fence that
is not below the stored one.
-/

namespace Keelith.Saga

/-- `Repository`. -/
structure Repository where
  records : Map String Record
  fences : Map String UInt64

namespace Repository

def new : Repository := ⟨∅, ∅⟩

/-- The fence of an instance, 0 without one. -/
def fence (r : Repository) (id : String) : UInt64 := (r.fences.lookup id).getD 0

def load (r : Repository) (id : String) (failure : Option String) : Except Error Record :=
  match failure with
  | some text => .error (.other text)
  | none =>
    match r.records.lookup id with
    | none => .error .errNotFound
    | some record => .ok record

/-- The repository with a record written under a fence. -/
def put (r : Repository) (record : Record) (fence : UInt64) : Repository where
  records := r.records.insert record.id record
  fences := r.fences.insert record.id fence

def create (r : Repository) (record : Record) (fence : UInt64) (failure : Option String) :
    Except Error Record × Repository :=
  if fence = 0 then (.error (.errInvalidOption "repository, context, or fence"), r)
  else
    match failure with
    | some text => (.error (.other text), r)
    | none =>
      let record := { record with revision := 1 }
      match record.validate with
      | .error err => (.error err, r)
      | .ok () =>
        if record.id ∈ r.records then (.error .errAlreadyExists, r)
        else (.ok record, r.put record fence)

def save (r : Repository) (record : Record) (expectedRevision fence : UInt64)
    (failure : Option String) : Except Error Record × Repository :=
  if expectedRevision = 0 ∨ fence = 0 then
    (.error (.errInvalidOption "repository, context, revision, or fence"), r)
  else
    match failure with
    | some text => (.error (.other text), r)
    | none =>
      match r.records.lookup record.id with
      | none => (.error .errNotFound, r)
      | some current =>
        if fence < r.fence record.id then (.error .errStaleFence, r)
        else if current.revision ≠ expectedRevision then (.error .errConflict, r)
        else if current.definition ≠ record.definition ∨ current.version ≠ record.version then
          (.error .errDefinitionMismatch, r)
        else
          let record := { record with revision := expectedRevision + 1 }
          match record.validate with
          | .error err => (.error err, r)
          | .ok () => (.ok record, r.put record fence)

variable {r : Repository} {record : Record} {fence : UInt64} {failure : Option String}

@[simp] theorem records_put : (r.put record fence).records.lookup record.id = some record := by
  simp [put]

@[simp] theorem fence_put : (r.put record fence).fence record.id = fence := by
  simp [put, Repository.fence]

theorem lookup_put {id : String} (h : record.id = id) :
    (r.put record fence).records.lookup id = some record := by
  rw [← h, records_put]

theorem put_fence {id : String} (h : record.id = id) : (r.put record fence).fence id = fence := by
  rw [← h, fence_put]

theorem load_ok {id : String} (h : r.load id failure = .ok record) :
    r.records.lookup id = some record := by
  unfold load at h
  split at h
  · cases h
  · split at h
    · cases h
    next hlookup => rw [hlookup, Except.ok.inj h]

/-- `Create` fails, or writes the first revision. -/
theorem create_cases (r : Repository) (record : Record) (fence : UInt64) (failure : Option String) :
    (∃ err, r.create record fence failure = (.error err, r)) ∨
    r.records.lookup record.id = none ∧
      r.create record fence failure =
        (.ok { record with revision := 1 }, r.put { record with revision := 1 } fence) := by
  unfold create
  dsimp only
  split
  · exact .inl ⟨_, rfl⟩
  · split
    · exact .inl ⟨_, rfl⟩
    · split
      · exact .inl ⟨_, rfl⟩
      · split
        · exact .inl ⟨_, rfl⟩
        next hnot => exact .inr ⟨Finmap.lookup_eq_none.mpr hnot, rfl⟩

/-- `Save` fails, or replaces the record of the expected revision. -/
theorem save_cases (r : Repository) (record : Record) (expected fence : UInt64)
    (failure : Option String) : (∃ err, r.save record expected fence failure = (.error err, r)) ∨
    ∃ current, r.records.lookup record.id = some current ∧ r.fence record.id ≤ fence ∧
      current.revision = expected ∧ expected < expected + 1 ∧
      r.save record expected fence failure =
        (.ok { record with revision := expected + 1 },
          r.put { record with revision := expected + 1 } fence) := by
  unfold save
  dsimp only
  split
  · exact .inl ⟨_, rfl⟩
  · split
    · exact .inl ⟨_, rfl⟩
    · split
      · exact .inl ⟨_, rfl⟩
      next current hlookup =>
        split
        · exact .inl ⟨_, rfl⟩
        next hfence =>
          split
          · exact .inl ⟨_, rfl⟩
          next hrevision =>
            split
            · exact .inl ⟨_, rfl⟩
            · split
              · exact .inl ⟨_, rfl⟩
              next hvalid =>
                -- a revision that wraps to 0 is not valid
                have hne : expected + 1 ≠ 0 := Record.validate_revision hvalid
                have hlt : expected < expected + 1 := by
                  rw [UInt64.lt_iff_toNat_lt]
                  have := UInt64.toNat_inj.not.mpr hne
                  simp only [UInt64.toNat_add, UInt64.toNat_one, UInt64.toNat_zero] at this ⊢
                  have := expected.toNat_lt
                  omega
                exact .inr ⟨current, hlookup, UInt64.not_lt.mp hfence,
                  not_not.mp hrevision, hlt, rfl⟩

end Repository

end Keelith.Saga

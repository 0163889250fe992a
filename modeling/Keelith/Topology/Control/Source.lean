import Keelith.Topology.Model

/-!
# Topology candidates

`programmable/topology/control/source.go`: a plan with a revision and a signature.

- **A candidate** (`Candidate`): its fields are not exported, so a value is the zero value, of
  revision 0, or what `NewCandidate` returns. The field `built` keeps that the snapshot is the
  activated plan.
- **A verifier** (`Verifier`) is an interface: it is what `Verify` may return for a candidate.
-/

namespace Keelith.Topology.Control

/-- `ed25519.SignatureSize`. -/
def signatureSize : Nat := 64

/-- `CandidateSpec`. -/
structure CandidateSpec where
  revision : UInt64
  plan : Plan
  hash : String
  signature : List UInt8

/-- `Candidate`. -/
structure Candidate where
  revision : UInt64
  plan : Plan
  snapshot : Snapshot
  signature : List UInt8
  built : revision ≠ 0 → activate plan = .ok snapshot

/-- `ErrInvalidCandidate`, with the check that failed. -/
inductive CandidateError where
  | errInvalidCandidate
  | plan (err : PlanError)
  | hashMismatch

def newCandidate (spec : CandidateSpec) : Except CandidateError Candidate :=
  if spec.revision = 0 ∨ signatureSize < spec.signature.length then .error .errInvalidCandidate
  else
    match h : activate spec.plan with
    | .error err => .error (.plan err)
    | .ok snapshot =>
      if spec.hash ≠ "" ∧ spec.hash ≠ snapshot.hash then .error .hashMismatch
      else .ok ⟨spec.revision, spec.plan, snapshot, spec.signature, fun _ => h⟩

variable {candidate : Candidate}

theorem newCandidate_eq_ok {spec : CandidateSpec} (h : newCandidate spec = .ok candidate) :
    spec.revision ≠ 0 ∧ spec.signature.length ≤ signatureSize ∧ candidate.revision = spec.revision ∧
      candidate.signature = spec.signature ∧ candidate.plan = spec.plan ∧
        activate spec.plan = .ok candidate.snapshot := by
  unfold newCandidate at h
  split at h
  · cases h
  next hvalid =>
    rw [not_or] at hvalid
    split at h
    · cases h
    next snapshot hsnapshot =>
      split at h
      · cases h
      · obtain rfl := Except.ok.inj h
        exact ⟨hvalid.1, Nat.not_lt.mp hvalid.2, rfl, rfl, rfl, hsnapshot⟩

theorem newCandidate_ok (spec : CandidateSpec) {snapshot : Snapshot} (hrevision : spec.revision ≠ 0)
    (hsignature : spec.signature.length ≤ signatureSize)
    (hactivate : activate spec.plan = .ok snapshot)
    (hhash : spec.hash = "" ∨ spec.hash = snapshot.hash) :
    ∃ candidate, newCandidate spec = .ok candidate ∧
      candidate.revision = spec.revision ∧ candidate.signature = spec.signature ∧
        candidate.snapshot = snapshot := by
  unfold newCandidate
  rw [if_neg (not_or.mpr ⟨hrevision, Nat.not_lt.mpr hsignature⟩)]
  split
  next err herr => rw [hactivate] at herr; cases herr
  next found hfound =>
    obtain rfl := Except.ok.inj (hfound.symm.trans hactivate)
    rw [if_neg fun h => hhash.elim h.1 h.2]
    exact ⟨_, rfl, rfl, rfl, rfl⟩

namespace Candidate

def epoch (candidate : Candidate) : UInt64 := candidate.snapshot.epoch

def hash (candidate : Candidate) : String := candidate.snapshot.hash

def signingBytes (candidate : Candidate) : List UInt8 :=
  bytesOf ("keelith-topology-candidate-v1\n" ++ toString candidate.revision.toNat ++ "\n" ++
    toString candidate.epoch.toNat ++ "\n" ++ candidate.hash ++ "\n")

variable {first second : Candidate}

theorem epoch_ne (h : candidate.revision ≠ 0) : candidate.epoch ≠ 0 :=
  activate_epoch_ne (candidate.built h)

theorem hash_ne (h : candidate.revision ≠ 0) : candidate.hash ≠ "" := by
  obtain ⟨hsnapshot, -⟩ := activate_ok (candidate.built h)
  rw [Candidate.hash, hsnapshot]
  intro hempty
  have hlength := congrArg String.length hempty
  simp [canonicalHash] at hlength

/-- What is signed depends on revision, epoch and hash only. -/
theorem signingBytes_congr (hrevision : first.revision = second.revision)
    (hepoch : first.epoch = second.epoch) (hhash : first.hash = second.hash) :
    first.signingBytes = second.signingBytes := by
  rw [signingBytes, signingBytes, hrevision, hepoch, hhash]

/-- The hash determines the epoch, among candidates without a collision. -/
theorem epoch_eq_of_hash_eq {S : Set (List UInt8)} (hS : CollisionFree S)
    (hfirst : first.revision ≠ 0) (hsecond : second.revision ≠ 0) (hp : first.plan.message ∈ S)
    (hq : second.plan.message ∈ S) (hhash : first.hash = second.hash) :
    first.epoch = second.epoch :=
  Topology.epoch_eq_of_hash_eq hS (first.built hfirst) (second.built hsecond) hp hq hhash

end Candidate

/-! ## Verification -/

/-- What `Verify` returns besides nil. -/
inductive VerifyError where
  | errInvalidSignature
  | other (text : String)

/-- `Verifier`: what `Verify` may return for a candidate. -/
abbrev Verifier := Candidate → Except VerifyError Unit → Prop

end Keelith.Topology.Control

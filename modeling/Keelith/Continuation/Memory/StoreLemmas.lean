import Keelith.Continuation.Memory.Store
import Keelith.Continuation.StateLemmas

/-!
# What one call of the in-memory Store can do

One inversion lemma for each method of `Memory.Store`: a failed call leaves the store as it was
(`acquire` may drop an expired lease), and a successful one had these guards and wrote this store.
Proofs about runs use these lemmas and never unfold a method.

* `grant_ok`: the snapshot that `Claim` and `Acquire` write has the next revision and fence.
* `validSuccessor_iff`: what `Transition` checks of the snapshot that it is given.
* `transition_ok_iff`: exactly when `Transition` commits, and what it writes.
-/

namespace Keelith.Continuation.Memory

theorem equalFrame_iff {first second : Frame} : equalFrame first second = true ↔
    first = second := by
  cases first; cases second
  simp [equalFrame, and_assoc]

/-- The first loop of `validSuccessor`: the old frames start the new ones. -/
theorem equalFrames_iff {frames next : List Frame} (h : frames.length ≤ next.length) :
    ((frames.zip next).all fun pair => equalFrame pair.1 pair.2) = true ↔ frames <+: next := by
  induction frames generalizing next with
  | nil => simp
  | cons frame frames ih =>
    cases next with
    | nil => simp at h
    | cons head tail =>
      have hlen : frames.length ≤ tail.length := by simpa using h
      simp [equalFrame_iff, ih hlen]

/-- The snapshot `next` that `validSuccessor` accepts after `current`. -/
structure Follows (current next : Snapshot) (fence : UInt64) : Prop where
  callID : next.callID = current.callID
  operation : next.operation = current.operation
  revision : next.revision = current.revision + 1
  fence : next.fence = fence
  sequence : current.sequence ≤ next.sequence
  frames : current.frames <+: next.frames
  numbered : newFramesNumbered current.frames.length
    (next.frames.drop current.frames.length) = true

theorem validSuccessor_iff {current next : Snapshot} {fence : UInt64} :
    validSuccessor current next fence = true ↔ Follows current next fence := by
  simp only [validSuccessor, Bool.and_eq_true, beq_iff_eq, Bool.not_eq_true',
    decide_eq_false_iff_not, UInt64.not_lt, decide_eq_true_eq]
  constructor
  · rintro ⟨⟨⟨⟨⟨⟨⟨h1, h2⟩, h3⟩, h4⟩, h5⟩, h6⟩, h7⟩, h8⟩
    exact ⟨h1, h2, h3, h4, h5, (equalFrames_iff h6).mp h7, h8⟩
  · intro h
    have hlen := h.frames.length_le
    exact ⟨⟨⟨⟨⟨⟨⟨h.callID, h.operation⟩, h.revision⟩, h.fence⟩, h.sequence⟩, hlen⟩,
      (equalFrames_iff hlen).mpr h.frames⟩, h.numbered⟩

namespace Store

variable (s : Store)

/-! ## Grants -/

/-- A granted snapshot: `next` is `current` under the next revision and fence. -/
structure Granted (now : Time) (current next : Snapshot) : Prop where
  ready : ready current.status = true
  timer : timerNotReady current now = .ok ()
  apply : Continuation.apply current (grantTransition current) = .ok next
  fence : next.fence.toNat = current.fence.toNat + 1
  revision : next.revision = current.revision + 1
  callID : next.callID = current.callID

theorem grant_ok {now : Time} {current next : Snapshot} (h : grant now current = .ok next) :
    Granted now current next := by
  simp only [grant] at h
  split at h
  · cases h
  rename_i hready
  split at h
  · cases h
  rename_i htimer
  split at h
  · cases h
  rename_i hmax
  have hne : current.fence ≠ maxUint64 := by simpa using hmax
  have hzero : current.fence + 1 ≠ 0 := ne_zero_of_pos (by rw [toNat_succ hne]; omega)
  obtain ⟨-, -, ⟨hr, -⟩ | ⟨-, -, rfl⟩⟩ := apply_ok_iff.mp h
  · exact absurd rfl hr.command
  · refine ⟨by simpa using hready, htimer, h, ?_, rfl, rfl⟩
    have hf : nextFence current (grantTransition current) = current.fence + 1 := by
      simp [nextFence, grantTransition, move, hzero]
    show (nextFence current (grantTransition current)).toNat = _
    rw [hf, toNat_succ hne]

/-! ## The methods of `Store` -/

theorem create_cases (ctx : Context) (snapshot : Snapshot) :
    (∃ err, s.create ctx snapshot = (.error err, s)) ∨
    (initialSnapshot snapshot = true ∧ s.records.lookup snapshot.callID = none ∧
      s.create ctx snapshot =
        (.ok snapshot, { s with records := s.records.insert snapshot.callID snapshot })) := by
  fun_cases Store.create s ctx snapshot
  case case4 hi _ hn =>
    exact .inr ⟨by simpa using hi, by simpa using hn, rfl⟩
  all_goals exact .inl ⟨_, rfl⟩

/-- `Acquire` on a call whose lease, if any, is over. -/
theorem acquire_cases (now : Time) (ctx : Context) (callID : CallID) (revision : UInt64) :
    (∃ err, s.acquire now ctx callID revision = (.error err, s)) ∨
    (∃ current, s.records.lookup callID = some current ∧ current.revision = revision ∧
      (∀ lease, s.leases.lookup callID = some lease → lease.deadline ≤ now) ∧
      ((∃ err, s.acquire now ctx callID revision =
          (.error err, { s with leases := s.leases.erase callID })) ∨
       ∃ next, Granted now current next ∧
        s.acquire now ctx callID revision =
          (.ok next, { s with
            records := s.records.insert callID next
            leases := s.leases.erase callID }))) := by
  have hover : ¬ ((s.leases.lookup callID).any fun lease => decide (now < lease.deadline)) = true →
      ∀ lease, s.leases.lookup callID = some lease → lease.deadline ≤ now := by
    intro h lease hl
    rw [hl] at h
    simpa using h
  fun_cases Store.acquire s now ctx callID revision
  case case6 current hc hr hl _ err hg =>
    exact .inr ⟨current, hc, by simpa using hr, hover hl, .inl ⟨err, rfl⟩⟩
  case case7 current hc hr hl _ next hg =>
    exact .inr ⟨current, hc, by simpa using hr, hover hl, .inr ⟨next, grant_ok hg, rfl⟩⟩
  all_goals exact .inl ⟨_, rfl⟩

/-- The guards of `Transition` on the record `current`. -/
structure Commits (s : Store) (now : Time) (ctx : Context) (request : CommitRequest)
    (current : Snapshot) : Prop where
  live : ctx.cause = none
  expectedRevision : request.expectedRevision ≠ 0
  fence : request.fence ≠ 0
  callID : request.snapshot.callID ≠ ""
  expiresAt : request.expiresAt.isZero = true ∨ request.snapshot.status.terminal = true
  record : s.records.lookup request.snapshot.callID = some current
  lease : leaseAdmits (s.leases.lookup request.snapshot.callID) now request = true
  sameFence : request.fence = current.fence
  sameRevision : request.expectedRevision = current.revision
  follows : Follows current request.snapshot request.fence

/-- The store that `Transition` writes. -/
def committed (s : Store) (request : CommitRequest) : Store :=
  let next := request.snapshot
  { records := s.records.insert next.callID next
    expires := if next.status.terminal && !request.expiresAt.isZero then
        s.expires.insert next.callID request.expiresAt
      else s.expires.erase next.callID
    leases := if next.status = .running then
        s.leases.insert next.callID
          { (s.leases.lookup next.callID).getD {} with
            revision := next.revision, fence := next.fence }
      else s.leases.erase next.callID }

theorem transition_cases (now : Time) (ctx : Context) (request : CommitRequest) :
    (∃ err, s.transition now ctx request = (.error err, s)) ∨
    (∃ current, Commits s now ctx request current ∧
      s.transition now ctx request = (.ok request.snapshot, s.committed request)) := by
  fun_cases Store.transition s now ctx request
  case case8 next h1 hc current hl lease h2 h3 h4 h5 =>
    simp only [Bool.or_eq_true, beq_iff_eq, Bool.and_eq_true, Bool.not_eq_true', not_or, not_and,
      Bool.not_eq_false] at h1
    obtain ⟨⟨⟨hr, hf⟩, hid⟩, hx⟩ := h1
    exact .inr ⟨current, ⟨hc, hr, hf, hid, or_iff_not_imp_left.mpr fun hz =>
      hx (by simpa using hz), hl,
      by simpa using h2, by simpa using h3, by
        simpa using h4, validSuccessor_iff.mp (by simpa using h5)⟩, rfl⟩
  all_goals exact .inl ⟨_, rfl⟩

variable {s} in
/-- **When `Transition` commits.** -/
theorem transition_ok_iff {now : Time} {ctx : Context} {request : CommitRequest} {next : Snapshot} :
    (s.transition now ctx request).1 = .ok next ↔
      next = request.snapshot ∧ ∃ current, Commits s now ctx request current := by
  constructor
  · intro h
    rcases transition_cases s now ctx request with ⟨err, he⟩ | ⟨current, hc, he⟩
    · rw [he] at h; cases h
    · rw [he] at h
      exact ⟨(Except.ok.inj h).symm, current, hc⟩
  · rintro ⟨rfl, current, h⟩
    have hguard : (request.expectedRevision == 0 || request.fence == 0 ||
        request.snapshot.callID == "" ||
        (!request.expiresAt.isZero && !request.snapshot.status.terminal)) = false := by
      rcases h.expiresAt with hx | hx <;> simp [h.expectedRevision, h.fence, h.callID, hx]
    have hfence : (request.fence != current.fence) = false := by simp [h.sameFence]
    have hrevision : (request.expectedRevision != current.revision) = false := by
      simp [h.sameRevision]
    simp [transition, hguard, h.live, h.record, h.lease,
      hfence, hrevision, validSuccessor_iff.mpr h.follows]

/-- `command` on the record `current`: replayed, or accepted at the expected revision. -/
theorem command_cases (ctx : Context) (request : CommandRequest) (transition : Transition) :
    (∃ err, s.command ctx request transition = (.error err, s)) ∨
    (∃ current, s.records.lookup request.callID = some current ∧
      ((apply current transition = .ok current ∧
          s.command ctx request transition = (.ok current, s)) ∨
       ∃ next, apply current transition = .ok next ∧ next.revision ≠ current.revision ∧
        request.expectedRevision = current.revision ∧
        s.command ctx request transition =
          (.ok next, { s with
            records := s.records.insert request.callID next
            leases := s.leases.erase request.callID }))) := by
  fun_cases Store.command s ctx request transition
  case case5 current hl next ha hr =>
    have hsame : next = current := by
      obtain ⟨-, -, ⟨-, h⟩ | ⟨-, -, rfl⟩⟩ := apply_ok_iff.mp ha
      · exact h
      · exact absurd (beq_iff_eq.mp hr) (succ_ne_self current.revision)
    subst hsame
    exact .inr ⟨next, hl, .inl ⟨ha, rfl⟩⟩
  case case7 current hl next ha hr he =>
    exact .inr ⟨current, hl, .inr ⟨next, ha, by simpa using hr, by simpa using he, rfl⟩⟩
  all_goals exact .inl ⟨_, rfl⟩

/-- `Claim`: refused, repeated by the owner of the live lease, or a new grant. -/
theorem claim_cases (now : Time) (ctx : Context) (request : ClaimRequest) :
    (∃ err, s.claim now ctx request = (.error err, s)) ∨
    (request.validate = true ∧ ∃ current, s.records.lookup request.callID = some current ∧
      ((∃ lease, s.leases.lookup request.callID = some lease ∧ now < lease.deadline ∧
          lease.owner = request.ownerID ∧ lease.previousRevision = request.expectedRevision ∧
          s.claim now ctx request = (.ok ⟨current, lease.owner, lease.deadline⟩, s)) ∨
       ((∀ lease, s.leases.lookup request.callID = some lease → lease.deadline ≤ now) ∧
        current.revision = request.expectedRevision ∧ ∃ next, Granted now current next ∧
        s.claim now ctx request =
          (.ok ⟨next, request.ownerID, now + request.leaseDuration⟩,
            { s with
              records := s.records.insert request.callID next
              leases := s.leases.insert request.callID
                { owner := request.ownerID, deadline := now + request.leaseDuration,
                  revision := next.revision, fence := next.fence,
                  previousRevision := current.revision } })))) := by
  fun_cases Store.claim s now ctx request
  case case4 hv _ current hl lease hf ho =>
    obtain ⟨hlease, hlive⟩ := Option.filter_eq_some_iff.mp hf
    simp only [Bool.and_eq_true, beq_iff_eq] at ho
    exact .inr ⟨by simpa using hv, current, hl,
      .inl ⟨lease, hlease, by simpa using hlive, ho.1, ho.2, rfl⟩⟩
  case case8 hv _ current hl hf hr next hg _ =>
    have hover : ∀ lease, s.leases.lookup request.callID = some lease → lease.deadline ≤ now := by
      intro lease hlease
      rw [hlease] at hf
      simpa using hf
    exact .inr ⟨by simpa using hv, current, hl,
      .inr ⟨hover, by simpa using hr, next, grant_ok hg, rfl⟩⟩
  all_goals exact .inl ⟨_, rfl⟩

theorem renew_cases (now : Time) (ctx : Context) (request : LeaseRequest) :
    (∃ err, s.renew now ctx request = (.error err, s)) ∨
    (∃ current lease, s.records.lookup request.callID = some current ∧
      s.leases.lookup request.callID = some lease ∧ now < lease.deadline ∧
      s.renew now ctx request =
        (.ok ⟨current, lease.owner, now + request.leaseDuration⟩,
          { s with
            leases := s.leases.insert request.callID
              { lease with deadline := now + request.leaseDuration } })) := by
  fun_cases Store.renew s now ctx request
  case case6 current hl lease hlease h _ =>
    simp only [Bool.or_eq_true, Bool.not_eq_true', decide_eq_false_iff_not, not_or, not_not] at h
    exact .inr ⟨current, lease, hl, hlease, h.2, rfl⟩
  all_goals exact .inl ⟨_, rfl⟩

theorem release_cases (ctx : Context) (request : LeaseRequest) :
    (∃ err, s.release ctx request = (.error err, s)) ∨
    s.release ctx request = (.ok (), { s with leases := s.leases.erase request.callID }) := by
  fun_cases Store.release s ctx request
  case case6 => exact .inr rfl
  all_goals exact .inl ⟨_, rfl⟩

/-- A listed snapshot is the record of a listable call. -/
theorem mem_listReady {now : Time} {ctx : Context} {limit : Int} {listed : List Snapshot}
    {snapshot : Snapshot} (h : s.listReady now ctx limit = .ok listed) (hm : snapshot ∈ listed) :
    ∃ key, s.listable now key = true ∧ s.records.lookup key = some snapshot := by
  unfold listReady at h
  split at h
  · cases h
  split at h
  · cases h
  obtain rfl := Except.ok.inj h
  obtain ⟨key, hkey, hlookup⟩ := List.mem_filterMap.mp hm
  have hlistable := List.mem_of_mem_take hkey
  rw [Finset.mem_sort, Finset.mem_filter] at hlistable
  exact ⟨key, hlistable.2, hlookup⟩

/-! ## Administration -/

theorem pruneFrames_cases (ctx : Context) (callID : CallID) (floor : UInt64) :
    (∃ err, s.pruneFrames ctx callID floor = (.error err, s)) ∨
    (∃ current pruned, s.records.lookup callID = some current ∧
      current.status.terminal = true ∧ pruneSnapshot current floor = .ok pruned ∧
      s.pruneFrames ctx callID floor =
        (.ok pruned, { s with records := s.records.insert callID pruned })) := by
  fun_cases Store.pruneFrames s ctx callID floor
  case case6 current hl ht pruned hp =>
    exact .inr ⟨current, pruned, hl, by simpa using ht, hp, rfl⟩
  all_goals exact .inl ⟨_, rfl⟩

/-- `Expire`: refused, already expired, or the call ends. -/
theorem expire_cases (ctx : Context) (request : ExpireRequest) :
    (∃ err, s.expire ctx request = (.error err, s)) ∨
    (∃ current, s.records.lookup request.callID = some current ∧
      ((current.status = .expired ∧ s.expire ctx request = (.ok current, s)) ∨
       ∃ frame expired, newFrame .expired [] = .ok frame ∧
        apply current (move .expired current.fence [frame]) = .ok expired ∧
        s.expire ctx request = (.ok expired,
          { records := s.records.insert request.callID expired
            expires := s.expires.insert request.callID request.expiresAt
            leases := s.leases.erase request.callID }))) := by
  fun_cases Store.expire s ctx request
  case case4 current hl he => exact .inr ⟨current, hl, .inl ⟨he, rfl⟩⟩
  case case9 current hl _ _ _ frame hf expired ha =>
    exact .inr ⟨current, hl, .inr ⟨frame, expired, hf, ha, rfl⟩⟩
  all_goals exact .inl ⟨_, rfl⟩

@[simp] theorem lookup_deleteAll (keys : List String) (key : String) :
    (s.deleteAll keys).records.lookup key = (if key ∈ keys then none else s.records.lookup key) ∧
      (s.deleteAll keys).leases.lookup key = if key ∈ keys then none else s.leases.lookup key := by
  induction keys generalizing s with
  | nil => simp [deleteAll]
  | cons head tail ih =>
    simp only [deleteAll, List.foldl_cons] at ih ⊢
    rw [(ih _).1, (ih _).2, Map.lookup_erase_eq, Map.lookup_erase_eq]
    by_cases h : key = head <;> simp [h]

theorem deleteExpired_cases (ctx : Context) (before : Time) (limit : Int) :
    (∃ err, s.deleteExpired ctx before limit = (.error err, s)) ∨
    (∃ keys : List String, (∀ key ∈ keys, s.collectable before key = true) ∧
      s.deleteExpired ctx before limit = (.ok keys.length, s.deleteAll keys)) := by
  fun_cases Store.deleteExpired s ctx before limit
  case case3 _ _ keys =>
    refine .inr ⟨keys, fun key hk => ?_, rfl⟩
    have hmem := List.mem_of_mem_take hk
    rw [Finset.mem_sort, Finset.mem_filter] at hmem
    exact hmem.2
  all_goals exact .inl ⟨_, rfl⟩

end Store

/-! ## Restored stores -/

theorem restore_ok {s s' : Store} {snapshot : Snapshot} (h : restore s snapshot = .ok s') :
    SnapshotOk snapshot ∧ s.records.lookup snapshot.callID = none ∧
      s' = { s with records := s.records.insert snapshot.callID snapshot } := by
  unfold restore at h
  split at h
  · cases h
  rename_i hv
  split at h
  · cases h
  rename_i hn
  exact ⟨validateSnapshot_ok_iff.mp hv, by simpa using hn, (Except.ok.inj h).symm⟩

/-- **The rule for `NewFromSnapshots`**: what the empty store has and each restored snapshot keeps,
the rebuilt store has. -/
theorem newFromSnapshots_rule {P : Store → Prop} (h0 : P newStore)
    (hstep : ∀ s snapshot, P s → SnapshotOk snapshot →
      s.records.lookup snapshot.callID = none →
      P { s with records := s.records.insert snapshot.callID snapshot })
    {snapshots : List Snapshot} {s : Store} (h : newFromSnapshots snapshots = .ok s) : P s := by
  unfold newFromSnapshots at h
  generalize newStore = s0 at h0 h
  induction snapshots generalizing s0 with
  | nil =>
    obtain rfl : s0 = s := Except.ok.inj h
    exact h0
  | cons snapshot snapshots ih =>
    rw [List.foldlM_cons] at h
    cases hr : restore s0 snapshot with
    | error err => rw [hr] at h; cases h
    | ok s1 =>
      rw [hr] at h
      obtain ⟨hv, hn, rfl⟩ := restore_ok hr
      exact ih _ (hstep s0 snapshot h0 hv hn) h

end Keelith.Continuation.Memory

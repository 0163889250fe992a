import Keelith.Continuation.Memory.Machine

/-!
# Leases and fences of the in-memory Store

Who may commit on a call, over every run of the store.

* `interferes_changes`: an event that interferes with a call changes its record. So a call whose
  record an event leaves alone keeps the history of its lease.
* `LeaseInv`: a lease stands at the revision and the fence of its record, and a lease with an owner
  is over, or goes back to the claim of that owner with no interference since.
* `FenceInv`: no grant of a record that still exists has a fence above the record's.
-/

namespace Keelith.Continuation.Memory

/-! ## Grants and interference -/

variable {i : Input} {key : String} {s : Store} {ctx : Context} {history : List StoreEvent}
  {lease : LeaseRecord} {now : Time} {current : Snapshot} {request : CommitRequest}

/-- A grant writes a record under the next fence. -/
theorem grants_spec {fence : UInt64} (h : Grants key fence (machine.event s i)) :
    ∃ current next, s.records.lookup key = some current ∧
      (s.exec i).2.records.lookup key = some next ∧ next.revision = current.revision + 1 ∧
      next.fence = fence ∧ fence.toNat = current.fence.toNat + 1 := by
  obtain ⟨now, op⟩ := i
  rcases h with ⟨owner, ctx, request, lease, rfl, rfl, -, ho, hne, rfl⟩ |
    ⟨ctx, revision, snapshot, rfl, ho, rfl⟩
  · rcases Store.claim_cases s now ctx request with
      ⟨err, h⟩ | ⟨-, current, hc, ⟨old, -, -, -, -, h⟩ | ⟨-, -, next, hg, h⟩⟩
    · simp [h] at ho
    · simp only [machine, Machine.event, Store.exec, h, Output.lease.injEq, Except.ok.injEq] at ho
      subst ho
      exact absurd hc hne
    · simp only [machine, Machine.event, Store.exec, h, Output.lease.injEq, Except.ok.injEq] at ho
      subst ho
      exact ⟨current, next, hc, by simp [h], hg.revision, rfl, hg.fence⟩
  · rcases Store.acquire_cases s now ctx key revision with
      ⟨err, h⟩ | ⟨current, hc, -, -, ⟨err, h⟩ | ⟨next, hg, h⟩⟩
    · simp [h] at ho
    · simp [h] at ho
    · simp only [machine, Machine.event, Store.exec, h, Output.snapshot.injEq,
        Except.ok.injEq] at ho
      subst ho
      exact ⟨current, next, hc, by simp [h], hg.revision, rfl, hg.fence⟩

/-- A commit writes its snapshot, at the next revision. -/
theorem commits_spec {owner : String} {fence : UInt64}
    (h : Commits key owner fence (machine.event s i)) :
    ∃ ctx request current, i.op = .transition ctx request ∧ request.leaseOwner = owner ∧
      request.snapshot.callID = key ∧ request.fence = fence ∧
      Store.Commits s i.now ctx request current ∧ (s.exec i).2 = s.committed request := by
  obtain ⟨now, op⟩ := i
  obtain ⟨ctx, request, snapshot, rfl, rfl, rfl, rfl, ho⟩ := h
  rcases Store.transition_cases s now ctx request with ⟨err, h⟩ | ⟨current, hc, h⟩
  · simp [h] at ho
  · exact ⟨ctx, request, current, rfl, rfl, rfl, rfl, hc, by simp [h]⟩

/-- A result of `command` that is not the record was written as the record. -/
theorem command_writes {request : CommandRequest} {transition : Transition} {snapshot : Snapshot}
    (ho : (s.command ctx request transition).1 = .ok snapshot)
    (hne : s.records.lookup request.callID ≠ some snapshot) :
    (s.command ctx request transition).2.records.lookup request.callID = some snapshot := by
  rcases Store.command_cases s ctx request transition with
    ⟨err, h⟩ | ⟨current, hc, ⟨-, h⟩ | ⟨next, -, -, -, h⟩⟩
  · rw [h] at ho; cases ho
  · rw [h] at ho
    cases ho
    exact absurd hc hne
  · rw [h] at ho ⊢
    cases ho
    simp

theorem commandAccepted_changes (h : CommandAccepted key (machine.event s i)) :
    (s.exec i).2.records.lookup key ≠ s.records.lookup key := by
  obtain ⟨now, op⟩ := i
  obtain ⟨ctx, request, snapshot, hop, rfl, ho, hne⟩ := h
  have hop : op = .submitSignal ctx request ∨ op = .requestCancel ctx request := hop
  rcases exec_command s now ctx hop with ⟨err, h⟩ | ⟨transition, -, h⟩
  · simp [h, -Store.exec] at ho
  · simp only [machine, Machine.event, h, Output.snapshot.injEq] at ho
    rw [h, command_writes ho hne]
    exact hne.symm

theorem expires_changes (h : Expires key (machine.event s i)) :
    (s.exec i).2.records.lookup key ≠ s.records.lookup key := by
  obtain ⟨now, op⟩ := i
  obtain ⟨ctx, request, snapshot, rfl, rfl, ho, hne⟩ := h
  rcases Store.expire_cases s ctx request with
    ⟨err, h⟩ | ⟨current, hc, ⟨-, h⟩ | ⟨frame, expired, -, -, h⟩⟩ <;>
    simp only [machine, Machine.event, Store.exec, h, Output.snapshot.injEq, reduceCtorEq,
      Except.ok.injEq] at ho hne ⊢
  · subst ho
    exact absurd hc hne
  · subst ho
    rw [Finmap.lookup_insert]
    exact hne.symm

/-- **Interference shows in the record.** -/
theorem interferes_changes (h : Interferes key (machine.event s i)) :
    (s.exec i).2.records.lookup key ≠ s.records.lookup key := by
  rcases h with ⟨fence, hg⟩ | hc | he | ⟨fence, hc⟩ | ⟨hpre, hpost⟩ | ⟨hpre, hpost⟩
  · obtain ⟨current, next, hc, hn, hr, -⟩ := grants_spec hg
    rw [hc, hn]
    intro h
    rw [Option.some.inj h] at hr
    exact succ_ne_self _ hr.symm
  · exact commandAccepted_changes hc
  · exact expires_changes he
  · obtain ⟨ctx, request, current, -, -, rfl, -, hc, hpost⟩ := commits_spec hc
    rw [hpost, hc.record]
    simp only [Store.committed, Finmap.lookup_insert]
    intro h
    have hr := hc.follows.revision
    rw [Option.some.inj h] at hr
    exact succ_ne_self _ hr.symm
  · exact fun h => hpre (h.symm.trans hpost)
  · exact fun h => hpost (h.trans hpre)

/-! ## The lease invariant -/

/-- The lease of one call, with its record and the history. -/
structure LeaseOk (history : List StoreEvent) (key : String) (record : Option Snapshot)
    (lease : LeaseRecord) : Prop where
  record : ∃ r, record = some r ∧ lease.revision = r.revision ∧ lease.fence = r.fence
  owned : lease.owner ≠ "" → (∃ e ∈ history, lease.deadline ≤ e.input.now) ∨
    Since (ClaimGrants key lease.owner lease.fence) (Interferes key) history

/-- Every lease is in order. -/
def LeaseInv (history : List StoreEvent) (s : Store) : Prop :=
  ∀ key lease, s.leases.lookup key = some lease →
    LeaseOk history key (s.records.lookup key) lease

/-- An event that does not interfere keeps a lease in order, also over a new record at the same
revision and fence. -/
theorem LeaseOk.keep {record : Option Snapshot}
    {e : StoreEvent} (h : LeaseOk history key record lease)
    (hq : ¬ Interferes key e) : LeaseOk (history ++ [e]) key record lease := by
  refine ⟨h.record, fun ho => ?_⟩
  rcases h.owned ho with ⟨d, hd, hle⟩ | hs
  · exact .inl ⟨d, List.mem_append_left _ hd, hle⟩
  · exact .inr (Since.snoc_iff.mpr (.inr ⟨hs, hq⟩))

/-- A live lease with an owner goes back to a claim of that owner. -/
theorem LeaseOk.since {record : Option Snapshot} (h : LeaseOk history key record lease)
    (hclock : ∀ e ∈ history, e.input.now ≤ now) (ho : lease.owner ≠ "")
    (hlive : now < lease.deadline) :
    Since (ClaimGrants key lease.owner lease.fence) (Interferes key) history := by
  rcases h.owned ho with ⟨e, he, hle⟩ | hs
  · exact absurd (lt_of_lt_of_le hlive (hle.trans (hclock e he))) (lt_irrefl _)
  · exact hs

/-- A prune and a commit of an owner do not interfere with a record that stays. -/
theorem not_interferes {e : StoreEvent} (hpre : e.pre.records.lookup key ≠ none)
    (hpost : e.post.records.lookup key ≠ none)
    (hop : (∃ ctx callID floor, e.input.op = .pruneFrames ctx callID floor) ∨
      ∃ ctx request, e.input.op = .transition ctx request ∧ request.leaseOwner ≠ "") :
    ¬ Interferes key e := by
  rcases hop with ⟨ctx, callID, floor, hop⟩ | ⟨ctx, request, hop, ho⟩ <;>
    rintro (⟨fence, ⟨_, _, _, _, hi, _⟩ | ⟨_, _, _, hi, _⟩⟩ | ⟨_, _, _, hi | hi, _⟩ |
      ⟨_, _, _, hi, _⟩ | ⟨fence, _, _, _, hi, howner, _⟩ | ⟨-, hn⟩ | ⟨hn, -⟩)
  all_goals first
    | exact hpost hn
    | exact hpre hn
    | rw [hop] at hi; cases hi
  exact ho howner

/-- The lease test of an owner. -/
theorem leaseAdmits_owner {lease : Option LeaseRecord}
    (ho : request.leaseOwner ≠ "") (h : Store.leaseAdmits lease now request = true) :
    ∃ l, lease = some l ∧ l.owner = request.leaseOwner ∧ l.revision = request.expectedRevision ∧
      l.fence = request.fence ∧ now < l.deadline := by
  cases lease with
  | none => simp [Store.leaseAdmits, ho] at h
  | some l =>
    simp only [Store.leaseAdmits, bne_iff_ne, ne_eq, ho, not_false_eq_true, if_true,
      Option.any_some, Bool.and_eq_true, beq_iff_eq, decide_eq_true_eq] at h
    exact ⟨l, rfl, h.1.1.1, h.1.1.2, h.1.2, h.2⟩

/-- Without an owner no lease is live. -/
theorem leaseAdmits_ownerless
    (ho : request.leaseOwner = "") (h : Store.leaseAdmits (some lease) now request = true) :
    lease.deadline ≤ now := by
  simpa [Store.leaseAdmits, ho] using h

/-- A commit keeps the lease of its call in order. -/
theorem LeaseInv.commit (h : LeaseInv history s)
    (hclock : ∀ e ∈ history, e.input.now ≤ now) (hc : Store.Commits s now ctx request current)
    (hpost : (s.exec ⟨now, .transition ctx request⟩).2 = s.committed request)
    (hl : (s.committed request).leases.lookup request.snapshot.callID = some lease) :
    LeaseOk (history ++ [machine.event s ⟨now, .transition ctx request⟩]) request.snapshot.callID
      (some request.snapshot) lease := by
  by_cases hr : request.snapshot.status = .running
  · simp only [Store.committed, hr, if_true, Finmap.lookup_insert, Option.some.injEq] at hl
    subst hl
    refine ⟨⟨_, rfl, rfl, rfl⟩, fun howner => ?_⟩
    cases hold : s.leases.lookup request.snapshot.callID with
    | none => simp [hold] at howner
    | some old =>
      have hadmitted := hc.lease
      rw [hold] at hadmitted
      simp only [hold] at howner ⊢
      by_cases ho : request.leaseOwner = ""
      · exact .inl ⟨machine.event s ⟨now, .transition ctx request⟩, by simp,
          leaseAdmits_ownerless ho hadmitted⟩
      · -- the owner's lease was live, so its claim is in the history; the fence does not change
        obtain ⟨l, he, -, -, hf, hlive⟩ := leaseAdmits_owner ho hadmitted
        cases he
        have hs := (h _ old hold).since hclock howner hlive
        rw [hf, ← hc.follows.fence] at hs
        refine .inr (Since.snoc_iff.mpr (.inr ⟨hs, not_interferes ?_ ?_ (.inr ⟨_, _, rfl, ho⟩)⟩))
        · simp [hc.record]
        · simp [hpost, Store.committed, -Store.exec]
  · simp [Store.committed, hr] at hl

/-- **One event keeps the leases in order.** -/
theorem LeaseInv.step (h : LeaseInv history s) (hclock : ∀ e ∈ history, e.input.now ≤ i.now) :
    LeaseInv (history ++ [machine.event s i]) (s.exec i).2 := by
  intro key lease hl
  have hexec : (machine.event s i).post = (s.exec i).2 := rfl
  cases effect s i key with
  | still hrecord hlease =>
    have hq : ¬ Interferes key (machine.event s i) := fun hi => interferes_changes hi hrecord
    rw [hexec] at hrecord hlease
    rw [hrecord]
    rcases hlease with he | ⟨he, -⟩ | ⟨old, deadline, hold, hlive, he, -⟩
    · rw [he] at hl
      exact (h key lease hl).keep hq
    · rw [he] at hl; cases hl
    · rw [he] at hl
      cases hl
      have hok := h key old hold
      exact ⟨hok.record, fun ho =>
        .inr (Since.snoc_iff.mpr (.inr ⟨hok.since hclock ho hlive, hq⟩))⟩
  | create _ _ _ _ _ before _ hlease =>
    rw [hexec] at hlease
    rw [hlease] at hl
    obtain ⟨r, hr, -⟩ := (h key lease hl).record
    rw [Machine.event_pre, hr] at before
    cases before
  | claim owner current next deadline event _ _ _ after hlease =>
    rw [← hexec, hlease] at hl
    cases hl
    rw [← hexec, after]
    exact ⟨⟨next, rfl, rfl, rfl⟩, fun _ => .inr (Since.snoc_iff.mpr (.inl event))⟩
  | remove _ _ hlease | advance _ _ _ _ _ _ _ _ _ hlease => rw [← hexec, hlease] at hl; cases hl
  | commit ctx request current op callID _ commits post =>
    obtain ⟨now, _⟩ := i
    obtain rfl : _ = Op.transition ctx request := op
    subst callID
    have hpost : (s.exec ⟨now, .transition ctx request⟩).2 = s.committed request := post
    rw [hpost] at hl ⊢
    have hrec : (s.committed request).records.lookup request.snapshot.callID =
        some request.snapshot := by simp [Store.committed]
    rw [hrec]
    exact h.commit hclock commits hpost hl
  | prune ctx callID floor current pruned op hprune before after hlease =>
    rw [hexec] at hlease
    rw [hlease] at hl
    have hq : ¬ Interferes key (machine.event s i) :=
      not_interferes (by rw [before]; simp) (by rw [after]; simp) (.inl ⟨_, _, _, op⟩)
    obtain ⟨-, -, floor', n, rfl⟩ := pruneSnapshot_ok hprune
    have hok := (h key lease hl).keep hq
    obtain ⟨r, hr, hrev, hfence⟩ := hok.record
    rw [Machine.event_pre, hr] at before
    obtain rfl := Option.some.inj before
    rw [← hexec, after]
    exact ⟨⟨_, rfl, hrev, hfence⟩, hok.owned⟩

/-- A store starts without leases. -/
theorem newFromSnapshots_leases {snapshots : List Snapshot}
    (h : newFromSnapshots snapshots = .ok s) : s.leases = ∅ :=
  newFromSnapshots_rule (P := fun s => s.leases = ∅) rfl (fun _ _ hs _ _ => hs) h

theorem leaseInv_of_run (h : machine.Run history s) : LeaseInv history s := by
  refine h.invariant ?_ fun history s i hi hm => hi.step hm
  rintro s ⟨snapshots, hs⟩ key lease hl
  rw [newFromSnapshots_leases hs] at hl
  simp at hl

/-! ## Fences -/

/-- The fence of a record that stays does not go back. -/
theorem fence_mono
    (hc : s.records.lookup key = some current) (hkeep : ¬ Removes key (machine.event s i)) :
    ∃ next, (s.exec i).2.records.lookup key = some next ∧ current.fence ≤ next.fence := by
  have hsome : ∀ {other : Snapshot}, (machine.event s i).pre.records.lookup key = some other →
      other = current := fun h => Option.mem_unique h hc
  cases effect s i key with
  | still record _ => exact ⟨current, record.trans hc, UInt64.le_refl _⟩
  | create _ _ _ _ _ before _ _ => rw [Machine.event_pre, hc] at before; cases before
  | remove before after _ => exact absurd ⟨before, after⟩ hkeep
  | claim _ _ next _ _ granted _ before after _ =>
    obtain rfl := hsome before
    exact ⟨next, after, UInt64.le_iff_toNat_le.mpr (by rw [granted.fence]; omega)⟩
  | advance _ _ next _ happly _ _ before after _ =>
    obtain rfl := hsome before
    refine ⟨next, after, ?_⟩
    obtain ⟨-, -, ⟨-, rfl⟩ | ⟨-, hadv, rfl⟩⟩ := apply_ok_iff.mp happly
    · exact UInt64.le_refl _
    · exact hadv.fence
  | commit ctx request _ op callID _ commits post =>
    subst callID
    obtain rfl := hsome commits.record
    have hpost : (s.exec i).2 = s.committed request := post
    refine ⟨request.snapshot, by rw [hpost]; simp [Store.committed], ?_⟩
    rw [commits.follows.fence, commits.sameFence]
    exact UInt64.le_refl _
  | prune _ _ _ _ pruned _ hprune before after _ =>
    obtain rfl := hsome before
    obtain ⟨-, -, floor', n, rfl⟩ := pruneSnapshot_ok hprune
    exact ⟨_, after, UInt64.le_refl _⟩

/-- A grant of a record that still exists has a fence up to the record's. -/
def FenceInv (history : List StoreEvent) (s : Store) : Prop :=
  ∀ key fence, Since (Grants key fence) (Removes key) history →
    ∃ record, s.records.lookup key = some record ∧ fence ≤ record.fence

theorem fenceInv_of_run (h : machine.Run history s) : FenceInv history s := by
  refine h.invariant (fun s _ key fence hs => absurd hs Since.not_nil) ?_
  intro history s i ih _ key fence hs
  rcases Since.snoc_iff.mp hs with hg | ⟨hs, hkeep⟩
  · obtain ⟨_, next, -, hn, -, rfl, -⟩ := grants_spec hg
    exact ⟨next, hn, UInt64.le_refl _⟩
  · obtain ⟨record, hr, hle⟩ := ih key fence hs
    obtain ⟨next, hn, hle'⟩ := fence_mono hr hkeep
    exact ⟨next, hn, UInt64.le_trans hle hle'⟩

/-! ## Safety -/

/-- **Lease and fence safety.** Take any event of any run, and a call.

If the event commits a `Transition` for the lease owner `owner` under `fence`, then the last grant
of the call is a `Claim` by `owner` that allocated `fence`, no `Acquire`, accepted command, `Expire`
or commit without an owner came after it, and the lease of `owner` is not over. If the event is a
`Claim` or `Acquire` that allocates a fence, the fence is above that of every earlier grant of the
same record. -/
theorem lease_and_fence_safety {history before after : List StoreEvent} {e : StoreEvent} {s : Store}
    (hrun : machine.Run history s) (he : history = before ++ e :: after) (key : String) :
    (∀ owner fence, owner ≠ "" → Commits key owner fence e →
      Since (ClaimGrants key owner fence) (Interferes key) before ∧
      ∃ lease, e.pre.leases.lookup key = some lease ∧ lease.owner = owner ∧
        e.input.now < lease.deadline) ∧
    (∀ fence fence', Since (Grants key fence) (Removes key) before → Grants key fence' e →
      fence < fence') := by
  obtain ⟨hbefore, hclock, hevent⟩ := hrun.split he
  constructor
  · intro owner fence ho hcommit
    rw [hevent] at hcommit
    obtain ⟨ctx, request, current, -, rfl, rfl, rfl, hc, -⟩ := commits_spec hcommit
    obtain ⟨lease, hl, howner, -, hfence, hlive⟩ := leaseAdmits_owner ho hc.lease
    have hs := (leaseInv_of_run hbefore _ lease hl).since hclock (by rwa [howner]) hlive
    rw [howner, hfence] at hs
    exact ⟨hs, lease, hl, howner, hlive⟩
  · intro fence fence' hs hg
    rw [hevent] at hg
    obtain ⟨current, next, hc, -, -, -, hf⟩ := grants_spec hg
    obtain ⟨record, hr, hle⟩ := fenceInv_of_run hbefore key fence hs
    obtain rfl := Option.mem_unique hc hr
    have hle := UInt64.le_iff_toNat_le.mp hle
    exact UInt64.lt_iff_toNat_lt.mpr (by omega)

/-- A new call. -/
def sampleCall : Snapshot :=
  { callID := "c", operation := "/s/m", status := .accepted, readyAt := Time.zero, revision := 1,
    fence := 0, sequence := 0, frameFloor := 1, frames := [], commands := ∅, workflow := none }

/-- `o` claims a call and commits; the lease of `o` ends and `p` claims the call. -/
def handover : List Input :=
  [⟨1, .create .background sampleCall⟩,
   ⟨1, .claim .background ⟨"c", 1, "o", 10⟩⟩,
   ⟨2, .transition .background ⟨2, 1, "o", Time.zero,
     { sampleCall with status := .running, revision := 3, fence := 1 }⟩⟩,
   ⟨20, .claim .background ⟨"c", 3, "p", 10⟩⟩]

theorem handover_run : machine.Run (machine.trace newStore handover)
    (machine.final newStore handover) := by
  have hallows : machine.Allows [] newStore handover := by
    simp [Machine.Allows, machine, handover]
  exact (Machine.Run.init (M := machine) ⟨[], rfl⟩).extend hallows

/-- In the handover `o` commits under its claim, and `p` gets the fence 2 after the fence 1. -/
theorem handover_safe : ∃ create claimO commit claimP,
    machine.trace newStore handover = [create, claimO, commit, claimP] ∧
    Commits "c" "o" 1 commit ∧ Grants "c" 2 claimP ∧
    Since (ClaimGrants "c" "o" 1) (Interferes "c") [create, claimO] ∧ (1 : UInt64) < 2 := by
  refine ⟨_, _, _, _, rfl, ⟨_, _, _, rfl, rfl, rfl, rfl, rfl⟩, ?_, ?_, ?_⟩
  · exact .inl ⟨"p", _, _, _, rfl, rfl, rfl, rfl, by decide, rfl⟩
  · exact ((lease_and_fence_safety handover_run (rfl : _ = [_, _] ++ _ :: _) "c").1 "o" 1
      (by decide) ⟨_, _, _, rfl, rfl, rfl, rfl, rfl⟩).1
  · refine (lease_and_fence_safety handover_run (rfl : _ = [_, _, _] ++ _ :: _) "c").2 1 2 ?_
      (.inl ⟨"p", _, _, _, rfl, rfl, rfl, rfl, by decide, rfl⟩)
    refine ⟨[_], _, [_], rfl, .inl ⟨"o", _, _, _, rfl, rfl, rfl, rfl, by decide, rfl⟩, ?_⟩
    intro d hd hremove
    obtain rfl := List.mem_singleton.mp hd
    exact absurd hremove.2 (by decide)

end Keelith.Continuation.Memory

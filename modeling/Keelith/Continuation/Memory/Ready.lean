import Keelith.Continuation.Memory.Successor

/-!
# Ready calls and claims of the in-memory Store

`ListReady` and `Claim` decide separately whether a call can run.

* `grant_isOk`: `Apply` accepts the step of a claim from every status that is listed.
* `Leases`, `Ends`: an event that leases a call until a deadline, and one that ends the lease.
* `Held`: what a lease leaves of a call until one of these events.
-/

namespace Keelith.Continuation.Memory

variable {s : Store} {current : Snapshot} {key : String} {now deadline : Time} {ctx : Context}

/-! ## Listed and claimed -/

theorem grant_isOk (h : SnapshotOk current) (hready : ready current.status = true)
    (htimer : current.timerDue now = true) (hfence : current.fence < maxUint64)
    (hrevision : current.revision < maxUint64) : ∃ next, Store.grant now current = .ok next := by
  have hfence := UInt64.ne_of_lt hfence
  have hsucc := toNat_succ hfence
  have hzero : current.fence + 1 ≠ 0 := ne_zero_of_pos (by omega)
  have hnext : nextFence current (grantTransition current) = current.fence + 1 := by
    simp [nextFence, grantTransition, move, hzero]
  have hadvances : Advances current (grantTransition current) := by
    refine ⟨?_, ?_, UInt64.ne_of_lt hrevision, ?_, fun _ => hnext ▸ hzero, by
      simp [grantTransition, move], toNat_lt_two_pow _⟩
    · cases hs : current.status <;> simp_all [ready, Status.terminal]
    · cases hs : current.status <;> simp_all [ready, grantTransition, move, allowedTransition]
    · rw [hnext, UInt64.le_iff_toNat_le]
      omega
  refine ⟨advanced current (grantTransition current), ?_⟩
  simp only [Store.grant, hready, timerNotReady, htimer, beq_iff_eq, hfence]
  refine apply_ok_iff.mpr ⟨h, ⟨?_, rfl, rfl⟩, .inr ⟨.inl rfl, hadvances, rfl⟩⟩
  simp only [grantTransition]
  split <;> rfl

theorem listable_of_mem (h : RecordsOk s) {limit : Int} {listed : List Snapshot}
    {snapshot : Snapshot} (hl : s.listReady now ctx limit = .ok listed) (hm : snapshot ∈ listed) :
    s.listable now snapshot.callID = true := by
  obtain ⟨k, hk, hr⟩ := s.mem_listReady hl hm
  rwa [(h k snapshot hr).2]

/-- With room for all listable calls, a listable call is listed. -/
theorem listReady_of_listable {limit : Int} (hlimit : 0 < limit ∧ limit ≤ 10000)
    (hroom : (s.records.keys.filter fun k => s.listable now k).card ≤ limit.toNat)
    (hlive : ctx.cause = none) (hc : s.records.lookup key = some current)
    (h : s.listable now key = true) :
    ∃ listed, s.listReady now ctx limit = .ok listed ∧ current ∈ listed := by
  have hargs : ¬ (limit ≤ 0 ∨ limit > 10000) := by omega
  simp only [Store.listReady, Bool.or_eq_true, decide_eq_true_eq, hargs, hlive]
  refine ⟨_, rfl, List.mem_filterMap.mpr ⟨key, ?_, hc⟩⟩
  rw [List.take_of_length_le (by rwa [Finset.length_sort]), Finset.mem_sort, Finset.mem_filter]
  exact ⟨Finmap.mem_keys.mpr (Finmap.mem_of_lookup_eq_some hc), h⟩

theorem claim_ok_iff (h : SnapshotOk current) (hc : s.records.lookup key = some current)
    (hfence : current.fence < maxUint64) (hrevision : current.revision < maxUint64)
    {request : ClaimRequest} (hvalid : request.validate = true) (hlive : ctx.cause = none)
    (hkey : request.callID = key) (hexpected : request.expectedRevision = current.revision)
    (howner : ∀ lease, s.leases.lookup key = some lease → now < lease.deadline →
      lease.owner ≠ request.ownerID) :
    (∃ lease, (s.claim now ctx request).1 = .ok lease) ↔ s.listable now key = true := by
  subst hkey
  constructor
  · rintro ⟨lease, hok⟩
    rcases Store.claim_cases s now ctx request with
      ⟨err, he⟩ | ⟨-, other, ho, ⟨old, hold, hnow, heq, -, -⟩ | ⟨hover, -, next, hg, -⟩⟩
    · rw [he] at hok; cases hok
    · exact absurd heq (howner old hold hnow)
    · obtain rfl := Option.mem_unique ho hc
      have htimer : other.timerDue now = true := by simpa [timerNotReady] using hg.timer
      have hfree : s.leaseActive request.callID now = false :=
        (Option.any_eq_false ..).mpr fun lease hl => by simpa using hover lease hl
      simp [Store.listable, hc, hg.ready, htimer, hfree]
  · intro hl
    simp only [Store.listable, hc, Option.any_some, Bool.and_eq_true, Bool.not_eq_true'] at hl
    obtain ⟨⟨hready, htimer⟩, hfree⟩ := hl
    obtain ⟨next, hg⟩ := grant_isOk h hready htimer hfence hrevision
    have hnone : (s.leases.lookup request.callID).filter (fun lease =>
      now < lease.deadline) = none :=
      Option.filter_eq_none_iff.mpr fun lease hl => by
        simpa using (Option.any_eq_false ..).mp hfree lease hl
    simp [Store.claim, hvalid, hlive, hc, hnone, hexpected, hg]

/-! ## Until the deadline -/

/-- A `Claim` or a `Renew` that returns a lease of the call until the deadline. -/
def Leases (key : String) (deadline : Time) (e : StoreEvent) : Prop :=
  (∃ ctx request lease, e.input.op = .claim ctx request ∧ request.callID = key ∧
    e.output = .lease (.ok lease) ∧ lease.deadline = deadline) ∨ Renews key deadline e

/-- The deadline passes, the call is removed, or a `Release`, an `Acquire`, a command, a commit or a
`Renew` to an earlier deadline succeeds on it. -/
def Ends (key : String) (deadline : Time) (e : StoreEvent) : Prop :=
  deadline ≤ e.input.now ∨ Removes key e ∨ (∃ fence, AcquireGrants key fence e) ∨
    CommandAccepted key e ∨
    (∃ owner fence, Commits key owner fence e) ∨ Releases key e ∨ ∃ earlier < deadline,
      Renews key earlier e

/-- The call is over, or it is leased at least until the deadline. -/
def Held (key : String) (deadline : Time) (s : Store) : Prop :=
  ∃ record, s.records.lookup key = some record ∧ (ready record.status = true →
    ∃ lease, s.leases.lookup key = some lease ∧ deadline ≤ lease.deadline)

theorem Held.not_listable (h : Held key deadline s) (hnow : now < deadline) :
    s.listable now key = false := by
  obtain ⟨record, hr, hlease⟩ := h
  cases hready : ready record.status with
  | false => simp [Store.listable, hr, hready]
  | true =>
    obtain ⟨lease, hl, hle⟩ := hlease hready
    have hlive : now < lease.deadline := lt_of_lt_of_le hnow hle
    simp [Store.listable, Store.leaseActive, hl, hlive]

theorem held_of_leases {i : Input} (h : Leases key deadline (machine.event s i)) :
    Held key deadline (s.exec i).2 := by
  obtain ⟨now, op⟩ := i
  rcases h with ⟨ctx, request, lease, rfl, rfl, ho, rfl⟩ | ⟨ctx, request, lease, rfl, rfl, ho, rfl⟩
  · rcases Store.claim_cases s now ctx request with
      ⟨err, h⟩ | ⟨-, current, hc, ⟨old, hl, -, -, -, h⟩ | ⟨-, -, next, -, h⟩⟩ <;>
      simp only [machine, Machine.event, Store.exec, h, Output.lease.injEq, Except.ok.injEq,
        reduceCtorEq] at ho ⊢ <;> subst ho
    · exact ⟨current, hc, fun _ => ⟨old, hl, le_refl _⟩⟩
    · exact ⟨next, by simp, fun _ => ⟨_, Finmap.lookup_insert _, le_refl _⟩⟩
  · rcases Store.renew_cases s now ctx request with ⟨err, h⟩ | ⟨current, old, hc, -, -, h⟩ <;>
      simp only [machine, Machine.event, Store.exec, h, Output.lease.injEq, Except.ok.injEq,
        reduceCtorEq] at ho ⊢
    subst ho
    exact ⟨current, hc, fun _ => ⟨_, Finmap.lookup_insert _, le_refl _⟩⟩

theorem Held.step {i : Input} (h : Held key deadline s)
    (hi : ¬ Ends key deadline (machine.event s i)) : Held key deadline (s.exec i).2 := by
  simp only [Ends, not_or] at hi
  obtain ⟨hnow, hkeep, hacquire, hcommand, hcommit, hrelease, hrenew⟩ := hi
  obtain ⟨record, hr, hlease⟩ := h
  have hlive : Over key (machine.event s i) → ready record.status ≠ true := fun hover hready => by
    obtain ⟨lease, hl, hle⟩ := hlease hready
    exact hnow (hle.trans (hover lease hl))
  cases effect s i key with
  | still hrecord hpost =>
    refine ⟨record, hrecord.trans hr, fun hready => ?_⟩
    rcases hpost with hsame | ⟨-, hreleases | hover⟩ | ⟨old, later, -, -, hpost, hrenews⟩
    · obtain ⟨lease, hl, hle⟩ := hlease hready
      exact ⟨lease, hsame.trans hl, hle⟩
    · exact absurd hreleases hrelease
    · exact absurd hready (hlive hover)
    · exact ⟨_, hpost, not_lt.mp fun hlt => hrenew ⟨later, hlt, hrenews⟩⟩
  | create _ _ _ _ _ before _ _ => rw [Machine.event_pre, hr] at before; cases before
  | remove before after _ => exact absurd ⟨before, after⟩ hkeep
  | claim _ _ _ _ _ granted hover before _ _ =>
    -- the lease that stands would have to be over
    obtain rfl := Option.mem_unique before hr
    exact absurd granted.ready (hlive hover)
  | advance _ _ next _ _ _ event _ after _ =>
    rcases event with hevent | hevent | hexpired
    · exact absurd hevent hacquire
    · exact absurd hevent hcommand
    · exact ⟨next, after, fun hready => by rw [hexpired] at hready; cases hready⟩
  | commit ctx request _ op callID output _ _ =>
    exact absurd ⟨_, _, ctx, request, _, op, rfl, callID, rfl, output⟩ hcommit
  | prune _ _ _ _ _ _ hprune before after hsame =>
    obtain rfl := Option.mem_unique before hr
    obtain ⟨-, -, floor, n, rfl⟩ := pruneSnapshot_ok hprune
    exact ⟨_, after, fun hready => hsame ▸ hlease hready⟩

theorem held_of_run {history : List StoreEvent} (hrun : machine.Run history s)
    (h : Since (Leases key deadline) (Ends key deadline) history) : Held key deadline s := by
  refine hrun.invariant (I := fun history s =>
    Since (Leases key deadline) (Ends key deadline) history →
    Held key deadline s) (fun _ _ h => absurd h Since.not_nil) ?_ h
  intro history s i ih _ hs
  rcases Since.snoc_iff.mp hs with hl | ⟨hs, hi⟩
  · exact held_of_leases hl
  · exact (ih hs).step hi

/-- **Readiness is claimability.** A call is listed exactly if an owner without a live lease on it
can claim it, and a leased call is not listed before the deadline of its lease. -/
theorem listed_iff_claimable {history : List StoreEvent} (hrun : apiMachine.Run history s)
    (now : Time) : (∀ key current, s.records.lookup key = some current → current.fence < maxUint64 →
      current.revision < maxUint64 → ∀ (limit : Int) (ctx : Context) (request : ClaimRequest),
      0 < limit ∧ limit ≤ 10000 →
      (s.records.keys.filter fun k => s.listable now k).card ≤ limit.toNat → ctx.cause = none →
      request.validate = true → request.callID = key → request.expectedRevision = current.revision →
      (∀ lease, s.leases.lookup key = some lease → now < lease.deadline →
        lease.owner ≠ request.ownerID) →
      ((∃ listed, s.listReady now ctx limit = .ok listed ∧ current ∈ listed) ↔
        ∃ lease, (s.claim now ctx request).1 = .ok lease)) ∧
    ∀ key deadline, Since (Leases key deadline) (Ends key deadline) history → now < deadline →
      ∀ limit ctx listed, s.listReady now ctx limit = .ok listed →
        ∀ snapshot ∈ listed, snapshot.callID ≠ key := by
  have hrecords := recordsOk_of_run hrun
  constructor
  · intro key current hc hfence hrevision limit ctx request hlimit hroom hlive hvalid hkey hexpected
      howner
    obtain ⟨hok, hid⟩ := hrecords key current hc
    rw [claim_ok_iff hok hc hfence hrevision hvalid hlive hkey hexpected howner]
    constructor
    · rintro ⟨listed, hl, hm⟩
      exact hid ▸ listable_of_mem hrecords hl hm
    · exact listReady_of_listable hlimit hroom hlive hc
  · rintro key deadline hs hnow limit ctx listed hl snapshot hm rfl
    have hlistable := listable_of_mem hrecords hl hm
    rw [(held_of_run hrun.of_restrict hs).not_listable hnow] at hlistable
    cases hlistable

/-- `o` claims a call at 1 for 10 ticks; at 5 it is not listed. -/
theorem claimed_call_not_listed : ¬ ∃ limit ctx listed,
    (apiMachine.final newStore (completion.take 2)).listReady 5 ctx limit = .ok listed ∧
      ∃ snapshot ∈ listed, snapshot.callID = "c" := by
  rintro ⟨limit, ctx, listed, hl, snapshot, hm, hc⟩
  exact (listed_iff_claimable claimed_run 5).2 "c" 11
    ⟨[_], _, [], rfl, .inl ⟨_, _, _, rfl, rfl, rfl, rfl⟩, by simp⟩ (by decide) limit ctx listed hl
      snapshot hm hc

end Keelith.Continuation.Memory

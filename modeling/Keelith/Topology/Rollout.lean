import Keelith.Topology.Manager

/-!
# Availability and lease safety in a rollout

- **Leases** (`LeaseInv`): the count of an epoch is the number of its leases that are not released,
  and its `idle` channel is open exactly while there are some (so that it is never closed twice).
  Only a ready or draining epoch has leases. This holds for all operations.
- **Traffic** (`TrafficInv`): the epochs with a weight are ready, and the active one is the newest
  of the ready ones. The shutdown drains do not keep it.

All that an operation can do to the manager is a `Change`; `rollout_safe` collects what follows for
every run of rollout operations.
-/

namespace Keelith.Topology

namespace Manager

variable {m : Manager} {epoch : UInt64} {entry : ManagedEpoch} {n : Nat}

theorem mem_unreleased : n ∈ m.unreleased epoch ↔
      n < m.leaseCount ∧ (m.leaseAt n).released = false ∧ (m.leaseAt n).epoch = epoch := by
  rw [unreleased, Finset.mem_filter, Finset.mem_range]

theorem leasesFit_of_leaseCount (h : m.leaseCount + 1 < 2 ^ 64) : m.LeasesFit := by
  intro epoch
  have hcard : (m.unreleased epoch).card ≤ (Finset.range m.leaseCount).card :=
    Finset.card_filter_le _ _
  rw [Finset.card_range] at hcard
  omega

/-- What holds of an epoch. -/
structure EntryOk (m : Manager) (epoch : UInt64) (entry : ManagedEpoch) : Prop where
  bound : epoch ≤ m.maximum
  count : entry.leases.toNat = (m.unreleased epoch).card
  held : entry.leases ≠ 0 → entry.state = .ready ∨ entry.state = .draining
  idle_lt : entry.idle < m.idleCount
  idle : m.idleClosed entry.idle = decide (entry.leases = 0)

/-- The epochs, their leases and their channels. -/
structure LeaseInv (m : Manager) : Prop where
  entry : ∀ epoch entry, m.epochs.lookup epoch = some entry → m.EntryOk epoch entry
  known : ∀ epoch, m.epochs.lookup epoch = none → m.unreleased epoch = ∅
  idle_inj : ∀ epoch entry epoch' entry', m.epochs.lookup epoch = some entry →
    m.epochs.lookup epoch' = some entry' → entry.idle = entry'.idle → epoch = epoch'

/-- The epochs that get new calls. -/
structure TrafficInv (m : Manager) : Prop where
  ready_le : ∀ epoch, m.isReady epoch = true → epoch ≤ m.active
  unready : m.traffic = none → ∀ epoch, m.isReady epoch = false
  active : m.traffic ≠ none → m.isReady m.active = true
  weights : ∀ epoch, m.currentWeight epoch ≠ 0 → m.isReady epoch = true

theorem isReady_iff :
    m.isReady epoch = true ↔ ∃ entry, m.epochs.lookup epoch = some entry ∧
      entry.state = .ready := by
  unfold isReady
  cases m.epochs.lookup epoch <;> simp

theorem leaseInv_new : LeaseInv new where
  entry _ _ h := by cases h
  known _ _ := rfl
  idle_inj _ _ _ _ h := by cases h

theorem trafficInv_new : TrafficInv new where
  ready_le _ h := by cases h
  unready _ _ := rfl
  active h := absurd rfl h
  weights _ h := absurd rfl h

/-! ## Changes of a state -/

section

variable {m' : Manager} {new : ManagedEpoch} {state : EpochState}

theorem isReady_insert (h : m'.epochs = m.epochs.insert epoch new) (other : UInt64) :
    m'.isReady other = if other = epoch then new.state == .ready else m.isReady other := by
  unfold isReady
  rw [h, Map.lookup_insert_eq]
  by_cases hother : other = epoch <;> simp [hother]

theorem isReady_setState (m : Manager) (epoch : UInt64) (entry : ManagedEpoch) (state : EpochState)
    (other : UInt64) : (m.setState epoch entry state).isReady other =
      if other = epoch then state == .ready else m.isReady other := by
  have hepochs : (m.setState epoch entry state).epochs =
    m.epochs.insert epoch { entry with state } := rfl
  exact isReady_insert hepochs other

/-- An entry changes, but not whether it is ready. -/
theorem isReady_of_insert (h : m'.epochs = m.epochs.insert epoch new)
    (hsame : m.isReady epoch = (new.state == .ready)) (other : UInt64) :
    m'.isReady other = m.isReady other := by
  rw [isReady_insert h]
  split
  next heq => rw [heq, hsame]
  next => rfl

/-- An entry is replaced or new. Its channel is the old one or a new one, and no other channel
changes. -/
theorem LeaseInv.replace (h : LeaseInv m) (hepochs : m'.epochs = m.epochs.insert epoch new)
    (hmaximum : m.maximum ≤ m'.maximum) (hidleCount : m.idleCount ≤ m'.idleCount)
    (hother : ∀ other, epoch ≠ other → m'.unreleased other = m.unreleased other)
    (hclosed : ∀ channel < m.idleCount, channel ≠ new.idle →
      m'.idleClosed channel = m.idleClosed channel)
    (hchannel : new.idle = m.idleCount ∨
      ∃ entry, m.epochs.lookup epoch = some entry ∧ new.idle = entry.idle)
    (hnew : m'.EntryOk epoch new) : LeaseInv m' := by
  have hne {other : UInt64} {entry : ManagedEpoch} (hother : other ≠ epoch)
      (hentry : m.epochs.lookup other = some entry) : entry.idle ≠ new.idle := by
    rcases hchannel with hfresh | ⟨old, hold, hsame⟩
    · rw [hfresh]
      exact (h.entry other entry hentry).idle_lt.ne
    · rw [hsame]
      exact fun heq => hother (h.idle_inj other entry epoch old hentry hold heq)
  have hlookup (other : UInt64) : m'.epochs.lookup other =
      if other = epoch then some new else m.epochs.lookup other := by
    rw [hepochs, Map.lookup_insert_eq]
  refine ⟨fun other entry hentry => ?_, fun other hnone => ?_,
    fun first entry second entry' hentry hentry' hidle => ?_⟩
  · rw [hlookup] at hentry
    split at hentry
    next heq => cases hentry; rw [heq]; exact hnew
    next hdiffers =>
      have hok := h.entry other entry hentry
      exact
        { bound := UInt64.le_trans hok.bound hmaximum
          count := (hother other (Ne.symm hdiffers)).symm ▸ hok.count
          held := hok.held
          idle_lt := hok.idle_lt.trans_le hidleCount
          idle := (hclosed _ hok.idle_lt (hne hdiffers hentry)).trans hok.idle }
  · rw [hlookup] at hnone
    split at hnone
    · cases hnone
    next hne => rw [hother other (Ne.symm hne)]; exact h.known other hnone
  · rw [hlookup] at hentry hentry'
    split at hentry <;> split at hentry'
    next heq heq' => rw [heq, heq']
    next hother => cases hentry; exact absurd hidle.symm (hne hother hentry')
    next hother _ => cases hentry'; exact absurd hidle (hne hother hentry)
    next => exact h.idle_inj first entry second entry' hentry hentry' hidle

/-- An epoch changes its state: one with leases to draining. -/
theorem LeaseInv.setState (h : LeaseInv m) (hlookup : m.epochs.lookup epoch = some entry)
    (hstate : entry.leases ≠ 0 → state = .ready ∨ state = .draining) :
    LeaseInv (m.setState epoch entry state) :=
  have hok := h.entry epoch entry hlookup
  h.replace rfl (UInt64.le_refl _) le_rfl (fun _ _ => rfl) (fun _ _ _ => rfl)
    (.inr ⟨entry, hlookup, rfl⟩) ⟨hok.bound, hok.count, hstate, hok.idle_lt, hok.idle⟩

end

/-! ## Leases -/

theorem LeaseInv.lookup_newer (h : LeaseInv m) (hnewer : ¬ epoch ≤ m.maximum) :
    m.epochs.lookup epoch = none := by
  cases hlookup : m.epochs.lookup epoch with
  | none => rfl
  | some entry => exact absurd (h.entry _ entry hlookup).bound hnewer

/-- The manager with one more epoch. -/
def withStaged (m : Manager) (snapshot : Snapshot) : Manager :=
  { m with
    epochs := m.epochs.insert snapshot.epoch
      { snapshot, state := .staging, leases := 0, idle := m.idleCount }
    idleClosed := Function.update m.idleClosed m.idleCount true
    idleCount := m.idleCount + 1
    maximum := snapshot.epoch }

theorem LeaseInv.stage (h : LeaseInv m) {snapshot : Snapshot}
    (hnewer : ¬ snapshot.epoch ≤ m.maximum) : LeaseInv (m.withStaged snapshot) := by
  have hnone : m.unreleased snapshot.epoch = ∅ := h.known _ (h.lookup_newer hnewer)
  exact h.replace rfl (UInt64.le_of_lt (UInt64.not_le.mp hnewer)) (Nat.le_succ _) (fun _ _ => rfl)
    (fun channel hlt _ => Function.update_of_ne hlt.ne _ _) (.inl rfl)
    { bound := UInt64.le_refl _
      count := (congrArg Finset.card hnone).symm
      held := fun hleases => absurd rfl hleases
      idle_lt := Nat.lt_succ_self _
      idle := Function.update_self .. }

theorem unreleased_lease (m : Manager) (epoch : UInt64) (entry : ManagedEpoch) (other : UInt64) :
    (m.lease epoch entry).unreleased other =
      if epoch = other then insert m.leaseCount (m.unreleased other) else m.unreleased other := by
  have hcount : (m.lease epoch entry).leaseCount = m.leaseCount + 1 := by
    unfold lease
    split <;> rfl
  have hleaseAt : (m.lease epoch entry).leaseAt =
      Function.update m.leaseAt m.leaseCount { epoch, snapshot := entry.snapshot } := by
    unfold lease
    split <;> rfl
  ext n
  rw [mem_unreleased, hcount, hleaseAt, Function.update_apply]
  by_cases hn : n = m.leaseCount
  · subst hn
    rw [if_pos rfl]
    split
    next heq => simp [heq]
    next hne => simp [hne, mem_unreleased]
  · rw [if_neg hn]
    have hlt : n < m.leaseCount + 1 ↔ n < m.leaseCount := by omega
    rw [hlt]
    split
    · rw [Finset.mem_insert, mem_unreleased]
      simp [hn]
    · rw [mem_unreleased]

/-- One more lease on a ready epoch. -/
theorem LeaseInv.lease (h : LeaseInv m) (hfit : m.LeasesFit)
    (hlookup : m.epochs.lookup epoch = some entry) (hready : entry.state = .ready) :
    LeaseInv (m.lease epoch entry) := by
  have hother (other : UInt64) (hne : epoch ≠ other) :
      (m.lease epoch entry).unreleased other = m.unreleased other := by
    rw [unreleased_lease, if_neg hne]
  have hok := h.entry epoch entry hlookup
  have hsucc : (entry.leases + 1).toNat = entry.leases.toNat + 1 := by
    have hlt := hfit epoch
    rw [← hok.count] at hlt
    rw [UInt64.toNat_add]
    exact Nat.mod_eq_of_lt hlt
  have hcount : ((m.lease epoch entry).unreleased epoch).card = (entry.leases + 1).toNat := by
    rw [unreleased_lease, if_pos rfl, Finset.card_insert_of_notMem, hsucc, hok.count]
    exact fun hmem => Nat.lt_irrefl _ (mem_unreleased.mp hmem).1
  unfold Manager.lease at hother hcount ⊢
  split
  next hzero =>
    rw [if_pos hzero] at hother hcount
    exact h.replace rfl (UInt64.le_refl _) (Nat.le_succ _) hother
      (fun channel hlt _ => Function.update_of_ne hlt.ne _ _) (.inl rfl)
      { bound := hok.bound
        count := by rw [hcount, hzero]; rfl
        held := fun _ => .inl hready
        idle_lt := Nat.lt_succ_self _
        idle := Function.update_self .. }
  next hzero =>
    rw [if_neg hzero] at hother hcount
    have hsome : entry.leases + 1 ≠ 0 := fun hwrap => by
      rw [hwrap] at hsucc
      cases hsucc
    exact h.replace rfl (UInt64.le_refl _) le_rfl hother (fun _ _ _ => rfl)
      (.inr ⟨entry, hlookup, rfl⟩)
      { bound := hok.bound
        count := hcount.symm
        held := fun _ => .inl hready
        idle_lt := hok.idle_lt
        idle := hok.idle.trans (by simp [hzero, hsome]) }

/-- The manager with one lease released, before the count changes. -/
theorem unreleased_release (m : Manager) (n : Nat) (other : UInt64) :
    unreleased { m with
      leaseAt := Function.update m.leaseAt n { m.leaseAt n with released := true } } other =
      (m.unreleased other).erase n := by
  ext k
  rw [Finset.mem_erase, mem_unreleased, mem_unreleased]
  dsimp only
  rw [Function.update_apply]
  split
  next heq => simp [heq]
  next hne => simp [hne]

theorem LeaseInv.release (h : LeaseInv m) (hn : n < m.leaseCount) : LeaseInv (m.release n) := by
  unfold Manager.release
  split
  · exact h
  next hreleased =>
    have hreleased : (m.leaseAt n).released = false := by simpa using hreleased
    have hmem : n ∈ m.unreleased (m.leaseAt n).epoch := mem_unreleased.mpr ⟨hn, hreleased, rfl⟩
    have hunreleased := unreleased_release m n
    have hother (other : UInt64) (hne : (m.leaseAt n).epoch ≠ other) :
        (m.unreleased other).erase n = m.unreleased other :=
      Finset.erase_eq_of_notMem fun hmem => hne (mem_unreleased.mp hmem).2.2
    unfold releaseEpoch
    split
    next hnone =>
      rw [h.known _ hnone] at hmem
      cases hmem
    next entry hlookup =>
      have hok := h.entry _ entry hlookup
      have hcount := hok.count
      have hcard := Finset.card_pos.mpr ⟨n, hmem⟩
      have hpositive : entry.leases ≠ 0 := fun hzero => by
        rw [← hcount, hzero] at hcard
        cases hcard
      rw [if_neg hpositive]
      refine h.replace rfl (UInt64.le_refl _) le_rfl
        (fun other hne => (hunreleased other).trans (hother other hne)) (fun channel _ hne => ?_)
        (.inr ⟨entry, hlookup, rfl⟩) ⟨hok.bound, ?_, fun _ => hok.held hpositive, hok.idle_lt, ?_⟩
      · split
        · exact Function.update_of_ne hne _ _
        · rfl
      · refine Eq.trans ?_ (congrArg Finset.card (hunreleased _)).symm
        rw [Finset.card_erase_of_mem hmem, ← hcount, UInt64.toNat_sub_of_le]
        · rfl
        · exact UInt64.le_iff_toNat_le.mpr (hcount ▸ hcard)
      · dsimp only
        split
        next hlast => rw [Function.update_self, hlast]; rfl
        next hlast =>
          rw [hok.idle]
          simp [hpositive, hlast]

theorem LeaseInv.withTraffic (h : LeaseInv m) (active : UInt64)
    (traffic : Option TrafficSelector) : LeaseInv { m with active, traffic } :=
  { h with entry := fun epoch entry hlookup => { h.entry epoch entry hlookup with } }

/-- Leases do not change the state of an epoch. -/
theorem isReady_lease (hlookup : m.epochs.lookup epoch = some entry) (other : UInt64) :
    (m.lease epoch entry).isReady other = m.isReady other := by
  have hsame : ∃ leases idle, (m.lease epoch entry).epochs =
      m.epochs.insert epoch { entry with leases, idle } := by
    unfold lease
    split <;> exact ⟨_, _, rfl⟩
  obtain ⟨leases, idle, hepochs⟩ := hsame
  exact isReady_of_insert hepochs (by rw [isReady, hlookup]) other

section

variable (m epoch)

theorem isReady_releaseEpoch (other : UInt64) :
    (m.releaseEpoch epoch).isReady other = m.isReady other := by
  unfold releaseEpoch
  split
  · rfl
  next entry hlookup =>
    split
    · rfl
    · exact isReady_of_insert rfl (by rw [isReady, hlookup]) other

theorem releaseEpoch_fields :
    (m.releaseEpoch epoch).active = m.active ∧ (m.releaseEpoch epoch).traffic = m.traffic := by
  unfold releaseEpoch
  split
  · exact ⟨rfl, rfl⟩
  split <;> exact ⟨rfl, rfl⟩

theorem lease_fields (entry : ManagedEpoch) :
    (m.lease epoch entry).active = m.active ∧ (m.lease epoch entry).traffic = m.traffic := by
  unfold lease
  split <;> exact ⟨rfl, rfl⟩

/-- The traffic under a change of leases or of the counter of the selector. -/
theorem TrafficInv.congr {m m' : Manager} (h : TrafficInv m)
    (hready : ∀ epoch, m'.isReady epoch = m.isReady epoch) (hactive : m'.active = m.active)
    (htraffic : m'.traffic = none ↔ m.traffic = none)
    (hweight : ∀ epoch, m'.currentWeight epoch = m.currentWeight epoch) : TrafficInv m' where
  ready_le epoch hepoch := by
    rw [hactive]
    exact h.ready_le epoch (hready epoch ▸ hepoch)
  unready hnone epoch := by
    rw [hready]
    exact h.unready (htraffic.mp hnone) epoch
  active hsome := by
    rw [hactive, hready]
    exact h.active fun hnone => hsome (htraffic.mpr hnone)
  weights epoch hepoch := by
    rw [hready]
    exact h.weights epoch (hweight epoch ▸ hepoch)

/-! ## The operations -/

/-- What `Ready` does if it succeeds. -/
theorem ready_cases : (∃ err, m.ready epoch = (.error err, m)) ∨
    ∃ entry selector, m.epochs.lookup epoch = some entry ∧ entry.state = .staging ∧
      m.active < epoch ∧ (∀ weight ∈ selector.weights, weight.basisPoints ≠ 0 →
        weight.epoch = epoch ∨ m.isReady weight.epoch = true) ∧
      m.ready epoch =
        (.ok (), { m.setState epoch entry .ready with
          active := epoch, traffic := some selector }) := by
  unfold Manager.ready
  split
  · exact .inl ⟨_, rfl⟩
  next entry hlookup =>
    split
    · exact .inl ⟨_, rfl⟩
    next hstate =>
      rw [not_or, not_not, UInt64.not_le] at hstate
      split
      · exact .inl ⟨_, rfl⟩
      next selector _ =>
        split
        · exact .inl ⟨_, rfl⟩
        next hnone =>
          refine .inr ⟨entry, selector, hlookup, hstate.1, hstate.2,
            fun weight hmem hpositive => ?_, rfl⟩
          have hready := List.find?_eq_none.mp hnone weight hmem
          simp only [decide_eq_true_eq, not_and, Bool.not_eq_false] at hready
          by_cases heq : weight.epoch = epoch
          · exact .inl heq
          · exact .inr (hready hpositive heq)

/-- What `Drain` does if it succeeds. -/
theorem drain_cases : (∃ err, m.drain epoch = (.error err, m)) ∨
    ∃ entry, m.epochs.lookup epoch = some entry ∧ m.active ≠ epoch ∧ m.currentWeight epoch = 0 ∧
      m.drain epoch = (.ok (), m.setState epoch entry .draining) := by
  unfold Manager.drain
  split
  · exact .inl ⟨_, rfl⟩
  next entry hlookup =>
    split
    · exact .inl ⟨_, rfl⟩
    split
    · exact .inl ⟨_, rfl⟩
    next hsuccessor =>
      split
      · exact .inl ⟨_, rfl⟩
      next hweight =>
        refine .inr ⟨entry, hlookup, fun heq => hsuccessor (.inl ?_), not_not.mp hweight, rfl⟩
        rw [heq]
        exact UInt64.le_refl _

/-- What `Discard` and the second section of `Stop` do: an epoch that is not ready and has no lease
is stopped. -/
def Stops (m : Manager) (epoch : UInt64) (result : Except ManagerError Unit × Manager) : Prop :=
  result.2 = m ∨ ∃ entry, m.epochs.lookup epoch = some entry ∧ entry.state ≠ .ready ∧
    entry.leases = 0 ∧ result.2 = m.setState epoch entry .stopped

theorem stops_discard : m.Stops epoch (m.discard epoch) := by
  unfold discard
  split
  · exact .inl rfl
  next entry hlookup =>
    split
    · exact .inl rfl
    split
    · exact .inl rfl
    next hstate =>
      rw [not_or, not_not, not_not] at hstate
      exact .inr ⟨entry, hlookup, by rw [hstate.1]; decide, hstate.2, rfl⟩

theorem stops_finishStop : m.Stops epoch (m.finishStop epoch) := by
  unfold finishStop
  split
  · exact .inl rfl
  next entry hlookup =>
    split
    · exact .inl rfl
    split
    · exact .inl rfl
    next hstate =>
      rw [not_or, not_not, not_not] at hstate
      exact .inr ⟨entry, hlookup, by rw [hstate.1]; decide, hstate.2, rfl⟩

/-- What the shutdown drains do: an epoch becomes draining, and the traffic may end. -/
def Drains (m : Manager) (epoch : UInt64) (m' : Manager) : Prop :=
  m' = m ∨ ∃ entry active traffic, m.epochs.lookup epoch = some entry ∧
    m' = { m.setState epoch entry .draining with active, traffic }

theorem drains_drainForShutdown : m.Drains epoch (m.drainForShutdown epoch).2 := by
  unfold drainForShutdown
  split
  · exact .inl rfl
  next entry hlookup =>
    split
    · exact .inl rfl
    · refine .inr ⟨entry, if m.active = epoch then 0 else m.active,
        if m.active = epoch then none else m.traffic, hlookup, ?_⟩
      split <;> rfl

theorem drains_drainActive : m.Drains epoch (m.drainActive epoch).2 := by
  unfold drainActive
  split
  · exact .inl rfl
  next entry hlookup =>
    split
    · exact .inl rfl
    · exact .inr ⟨entry, 0, none, hlookup, rfl⟩

end

/-- What `acquire` does: the table stays, and a ready epoch gets a lease. -/
theorem acquire_cases (score : ℚ → UInt16 → ℚ) (m : Manager) (key : Bytes) :
    m.traffic = none ∧ m.acquire score key = (.error .errNoReadyEpoch, m) ∨
    ∃ ts ts' epoch, m.traffic = some ts ∧ ts'.toTrafficTable = ts.toTrafficTable ∧
      ts.basisPoints epoch ≠ 0 ∧
      (m.isReady epoch = false ∧
          m.acquire score key = (.error .errNoReadyEpoch, { m with traffic := some ts' }) ∨
        ∃ entry, m.epochs.lookup epoch = some entry ∧ entry.state = .ready ∧
          m.acquire score key =
            (.ok m.leaseCount, { m with traffic := some ts' }.lease epoch entry)) := by
  cases htraffic : m.traffic with
  | none => exact .inl ⟨rfl, by simp only [acquire, htraffic]⟩
  | some ts =>
    obtain ⟨epoch, hselect, hpositive, htable⟩ := ts.select_positive score key
    refine .inr ⟨ts, (ts.select score key).2, epoch, rfl, htable, hpositive, ?_⟩
    have hpair : ts.select score key = (.ok epoch, (ts.select score key).2) := by rw [← hselect]
    simp only [acquire, htraffic]
    rw [hpair]
    dsimp only
    cases hlookup : m.epochs.lookup epoch with
    | none => exact .inl ⟨by simp only [isReady, hlookup], rfl⟩
    | some entry =>
      dsimp only
      split
      next hstate => exact .inl ⟨by simpa [isReady, hlookup] using hstate, rfl⟩
      next hstate => exact .inr ⟨entry, rfl, not_not.mp hstate, rfl⟩

/-- All that an operation of a rollout can do to the manager. -/
inductive Change (m : Manager) : Manager → Prop
  | same : Change m m
  | stage {snapshot : Snapshot} (hnewer : ¬ snapshot.epoch ≤ m.maximum) :
      Change m (m.withStaged snapshot)
  | ready {epoch : UInt64} {entry : ManagedEpoch} {selector : TrafficSelector}
      (hlookup : m.epochs.lookup epoch = some entry) (hlt : m.active < epoch)
      (hweights : ∀ weight ∈ selector.weights, weight.basisPoints ≠ 0 →
        weight.epoch = epoch ∨ m.isReady weight.epoch = true) :
      Change m { m.setState epoch entry .ready with active := epoch, traffic := some selector }
  | drain {epoch : UInt64} {entry : ManagedEpoch} (hlookup : m.epochs.lookup epoch = some entry)
      (hactive : m.active ≠ epoch) (hweight : m.currentWeight epoch = 0) :
      Change m (m.setState epoch entry .draining)
  | stop {epoch : UInt64} {entry : ManagedEpoch} (hlookup : m.epochs.lookup epoch = some entry)
      (hstate : entry.state ≠ .ready) (hleases : entry.leases = 0) :
      Change m (m.setState epoch entry .stopped)
  | select {ts ts' : TrafficSelector} (htraffic : m.traffic = some ts)
      (htable : ts'.toTrafficTable = ts.toTrafficTable) : Change m { m with traffic := some ts' }
  | lease {ts ts' : TrafficSelector} {epoch : UInt64} {entry : ManagedEpoch}
      (htraffic : m.traffic = some ts)
      (htable : ts'.toTrafficTable = ts.toTrafficTable)
      (hlookup : m.epochs.lookup epoch = some entry)
      (hready : entry.state = .ready) (hfit : m.LeasesFit) :
      Change m ({ m with traffic := some ts' }.lease epoch entry)
  | release {n : Nat} (hn : n < m.leaseCount) : Change m (m.release n)

variable {m' : Manager} {result : Except ManagerError Unit × Manager}

theorem Stops.change (h : m.Stops epoch result) : m.Change result.2 := by
  rcases h with heq | ⟨entry, hlookup, hstate, hleases, heq⟩ <;> rw [heq]
  · exact .same
  · exact .stop hlookup hstate hleases

theorem Drains.leaseInv (hdrains : m.Drains epoch m') (h : LeaseInv m) : LeaseInv m' := by
  rcases hdrains with rfl | ⟨entry, active, traffic, hlookup, rfl⟩
  · exact h
  · exact (h.setState hlookup fun _ => .inr rfl).withTraffic active traffic

theorem Change.leaseInv (hchange : m.Change m') (h : LeaseInv m) : LeaseInv m' := by
  cases hchange with
  | same => exact h
  | stage hnewer => exact h.stage hnewer
  | ready hlookup => exact (h.setState hlookup fun _ => .inl rfl).withTraffic _ _
  | drain hlookup => exact h.setState hlookup fun _ => .inr rfl
  | stop hlookup _ hleases => exact h.setState hlookup fun hne => absurd hleases hne
  | select => exact h.withTraffic m.active _
  | lease _ _ hlookup hready hfit => exact (h.withTraffic m.active _).lease hfit hlookup hready
  | release hn => exact h.release hn

/-- The active epoch grows, and the traffic does not end. -/
theorem Change.active (hchange : m.Change m') :
    (m'.active = m.active ∧ (m.traffic ≠ none → m'.traffic ≠ none)) ∨
      (m.active < m'.active ∧ m'.traffic ≠ none) := by
  cases hchange with
  | same | stage | drain | stop => exact .inl ⟨rfl, id⟩
  | ready _ hlt => exact .inr ⟨hlt, nofun⟩
  | select => exact .inl ⟨rfl, nofun⟩
  | @lease _ ts' epoch entry =>
    obtain ⟨hactive, htraffic⟩ := lease_fields { m with traffic := some ts' } epoch entry
    exact .inl ⟨hactive, fun _ => htraffic ▸ Option.some_ne_none _⟩
  | release =>
    unfold Manager.release
    split
    · exact .inl ⟨rfl, id⟩
    · refine .inl ⟨(releaseEpoch_fields _ _).1, fun hne => ?_⟩
      rwa [(releaseEpoch_fields _ _).2]

theorem TrafficInv.select {ts ts' : TrafficSelector} (h : TrafficInv m)
    (htraffic : m.traffic = some ts) (htable : ts'.toTrafficTable = ts.toTrafficTable) :
    TrafficInv { m with traffic := some ts' } := by
  refine h.congr (fun _ => rfl) rfl (by simp [htraffic]) fun other => ?_
  simp only [currentWeight, htraffic, htable]

theorem TrafficInv.ready {selector : TrafficSelector} (h : TrafficInv m)
    (hlt : m.active < epoch) (hweights : ∀ weight ∈ selector.weights, weight.basisPoints ≠ 0 →
      weight.epoch = epoch ∨ m.isReady weight.epoch = true) :
    TrafficInv { m.setState epoch entry .ready with
      active := epoch, traffic := some selector } := by
  have hready (other : UInt64) : isReady
      { m.setState epoch entry .ready with active := epoch, traffic := some selector } other =
      if other = epoch then true else m.isReady other := isReady_setState m epoch entry .ready other
  exact
    { ready_le := fun other hother => by
        rw [hready] at hother
        split at hother
        next heq => rw [heq]; exact UInt64.le_refl _
        next => exact UInt64.le_trans (h.ready_le other hother) (UInt64.le_of_lt hlt)
      unready := nofun
      active := fun _ => (hready epoch).trans (if_pos rfl)
      weights := fun other hother => by
        rw [hready]
        obtain ⟨weight, hmem, rfl, hpositive⟩ := selector.mem_of_basisPoints hother
        split
        · rfl
        next hne => exact (hweights weight hmem hpositive).resolve_left hne }

/-- An epoch without new calls changes its state, but not to ready. -/
theorem TrafficInv.setState {state : EpochState} (h : TrafficInv m) (hstate : state ≠ .ready)
    (hactive : m.traffic ≠ none → m.active ≠ epoch) (hweight : m.currentWeight epoch = 0) :
    TrafficInv (m.setState epoch entry state) where
  ready_le other hother := by
    rw [isReady_setState] at hother
    split at hother
    · exact absurd (eq_of_beq hother) hstate
    · exact h.ready_le other hother
  unready hnone other := by
    rw [isReady_setState]
    split
    · simpa using hstate
    · exact h.unready hnone other
  active hsome := (isReady_setState ..).trans ((if_neg (hactive hsome)).trans (h.active hsome))
  weights other hother := by
    rw [isReady_setState, if_neg]
    · exact h.weights other hother
    · rintro rfl
      exact hother hweight

theorem TrafficInv.release (h : TrafficInv m) (n : Nat) : TrafficInv (m.release n) := by
  unfold Manager.release
  split
  · exact h
  · obtain ⟨hactive, htraffic⟩ := releaseEpoch_fields
      { m with leaseAt := Function.update m.leaseAt n { m.leaseAt n with released := true } }
      (m.leaseAt n).epoch
    exact h.congr (isReady_releaseEpoch _ _) hactive (by rw [htraffic]) fun other => by
      simp only [currentWeight, htraffic]

theorem Change.trafficInv (hchange : m.Change m') (h : TrafficInv m) (hinv : LeaseInv m) :
    TrafficInv m' := by
  cases hchange with
  | same => exact h
  | stage hnewer =>
    refine h.congr (isReady_of_insert rfl ?_) rfl Iff.rfl fun _ => rfl
    rw [isReady, hinv.lookup_newer hnewer]
    rfl
  | ready _ hlt hweights => exact h.ready hlt hweights
  | drain _ hactive hweight => exact h.setState (by decide) (fun _ => hactive) hweight
  | @stop epoch _ hlookup hstate =>
    have hunready : ¬ m.isReady epoch = true := by simpa [isReady, hlookup] using hstate
    refine h.setState (by decide) ?_ (by_contra fun hweight => hunready (h.weights _ hweight))
    rintro hsome rfl
    exact hunready (h.active hsome)
  | select htraffic htable => exact h.select htraffic htable
  | @lease _ ts' epoch entry htraffic htable hlookup =>
    obtain ⟨hactive, hsame⟩ := lease_fields { m with traffic := some ts' } epoch entry
    exact (h.select htraffic htable).congr (isReady_lease hlookup) hactive (by rw [hsame])
      fun other => by
      simp only [currentWeight, hsame]
  | release => exact h.release _

/-! ## What the invariants give -/

/-- **Acquire succeeds** once there is a table, with a ready epoch of positive weight. -/
theorem acquire_ok (score : ℚ → UInt16 → ℚ) (h : TrafficInv m) (htraffic : m.traffic ≠ none)
    (key : Bytes) : ∃ n, (m.acquire score key).1 = .ok n ∧
      (m.acquire score key).2.isReady ((m.acquire score key).2.leaseAt n).epoch = true ∧
      (m.acquire score key).2.currentWeight ((m.acquire score key).2.leaseAt n).epoch ≠ 0 := by
  rcases acquire_cases score m key with ⟨hnone, -⟩ | ⟨ts, ts', epoch, hsome, htable,
    hpositive, hcases⟩
  · exact absurd hnone htraffic
  have hweight : m.currentWeight epoch ≠ 0 := by
    simp only [currentWeight, hsome]
    exact hpositive
  have hready := h.weights epoch hweight
  rcases hcases with ⟨hunready, -⟩ | ⟨entry, hlookup, -, heq⟩
  · rw [hready] at hunready; cases hunready
  have hepoch : (({ m with traffic := some ts' } : Manager).lease epoch entry).leaseAt
      m.leaseCount = { epoch, snapshot := entry.snapshot } := by
    unfold lease
    split <;> exact Function.update_self ..
  refine ⟨m.leaseCount, by rw [heq], ?_, ?_⟩ <;> rw [heq, hepoch]
  · have hlookup' : ({ m with traffic := some ts' } : Manager).epochs.lookup epoch = some entry :=
      hlookup
    exact (isReady_lease hlookup' epoch).trans hready
  · simp only [currentWeight, (lease_fields { m with traffic := some ts' } epoch entry).2, htable]
    exact hpositive

/-- **A drainable epoch can be drained.** -/
theorem drain_of_drainable (h : TrafficInv m) (hdrainable : epoch ∈ m.drainable) :
    (m.drain epoch).1 = .ok () := by
  rw [drainable, Finset.mem_sort, Finset.mem_filter] at hdrainable
  obtain ⟨-, hne, hready, hweight⟩ := hdrainable
  obtain ⟨entry, hlookup, hstate⟩ := isReady_iff.mp hready
  have hsome : m.traffic ≠ none := fun hnone => by
    rw [h.unready hnone] at hready
    cases hready
  have hlt : ¬ (m.active ≤ epoch ∨ m.isReady m.active = false) := by
    rintro (hle | hunready)
    · exact hne (UInt64.le_antisymm (h.ready_le epoch hready) hle)
    · rw [h.active hsome] at hunready
      cases hunready
  simp only [drain, hlookup, hstate, if_neg hlt, hweight]
  rfl

end Manager

/-! ## Runs -/

namespace ManagerState

variable {score : ℚ → UInt16 → ℚ} {s : ManagerState}

theorem exec_acquire (s : ManagerState) (key : Bytes) :
    (s.exec score (.acquire key)).2.manager = (s.manager.acquire score key).2 := by
  simp only [exec]
  split
  next heq => rw [heq]
  next heq => rw [heq]

theorem exec_stop (s : ManagerState) (epoch : UInt64) :
    (s.exec score (.stop epoch)).2.manager = s.manager := by
  simp only [exec]
  split <;> rfl

theorem exec_stopIdle (s : ManagerState) (call : Nat) :
    (s.exec score (.stopIdle call)).2.manager = s.manager ∨
    ∃ epoch, (s.exec score (.stopIdle call)).2.manager = (s.manager.finishStop epoch).2 := by
  simp only [exec]
  split
  · exact .inl rfl
  · exact .inr ⟨_, rfl⟩

variable {op : ManagerOp}

/-- What an operation of a rollout does. Nothing but `Ready` changes the active epoch or ends the
traffic. -/
theorem exec_change (s : ManagerState) (hmay : s.May op) (hrollout : op.rollout = true) :
    s.manager.Change (s.exec score op).2.manager := by
  cases op with
  | stage snapshot =>
    show s.manager.Change (s.manager.stage snapshot).2
    unfold Manager.stage
    dsimp only
    split
    · exact .same
    split
    · exact .same
    next hnewer => exact .stage hnewer
  | ready epoch =>
    show s.manager.Change (s.manager.ready epoch).2
    rcases s.manager.ready_cases epoch with ⟨err, heq⟩ | ⟨entry, selector, hlookup, -, hlt,
      hweights, heq⟩ <;> rw [heq]
    · exact .same
    · exact .ready hlookup hlt hweights
  | drain epoch =>
    show s.manager.Change (s.manager.drain epoch).2
    rcases s.manager.drain_cases epoch with ⟨err, heq⟩ | ⟨entry, hlookup, hactive, hweight,
      heq⟩ <;> rw [heq]
    · exact .same
    · exact .drain hlookup hactive hweight
  | discard epoch => exact (s.manager.stops_discard epoch).change
  | acquire key =>
    rw [exec_acquire]
    rcases s.manager.acquire_cases score key with ⟨-, heq⟩ | ⟨ts, ts', epoch, htraffic,
      htable, -, hcases⟩
    · rw [heq]
      exact .same
    rcases hcases with ⟨-, heq⟩ | ⟨entry, hlookup, hready, heq⟩ <;> rw [heq]
    · exact .select htraffic htable
    · exact .lease htraffic htable hlookup hready hmay
  | release lease => exact .release hmay
  | stop epoch => rw [exec_stop]; exact .same
  | stopIdle call =>
    rcases exec_stopIdle s call with heq | ⟨epoch, heq⟩ <;> rw [heq]
    · exact .same
    · exact (s.manager.stops_finishStop epoch).change
  | stopCanceled call => exact .same
  | drainForShutdown | drainActive => cases hrollout

/-- The leases, for all operations. -/
theorem leaseInv_exec (h : s.manager.LeaseInv) (hmay : s.May op) :
    (s.exec score op).2.manager.LeaseInv := by
  by_cases hrollout : op.rollout = true
  · exact (s.exec_change hmay hrollout).leaseInv h
  · cases op with
    | drainForShutdown epoch => exact (s.manager.drains_drainForShutdown epoch).leaseInv h
    | drainActive epoch => exact (s.manager.drains_drainActive epoch).leaseInv h
    | _ => exact absurd rfl hrollout

/-- A `Ready` that succeeds has a newer epoch. -/
theorem ready_exec (s : ManagerState) (epoch : UInt64) :
    (s.exec score (.ready epoch)).1 ≠ .ok ∧ (s.exec score (.ready epoch)).2 = s ∨
    s.manager.active < (s.exec score (.ready epoch)).2.manager.active ∧
      (s.exec score (.ready epoch)).2.manager.traffic ≠ none := by
  simp only [exec]
  rcases s.manager.ready_cases epoch with ⟨err, heq⟩ | ⟨entry, selector, -, -, hlt, -,
    heq⟩ <;> rw [heq]
  · exact .inl ⟨ManagerReply.noConfusion, rfl⟩
  · exact .inr ⟨hlt, Option.some_ne_none _⟩

end ManagerState

/-- An event of a manager. -/
abbrev ManagerEvent := Event ManagerState ManagerOp ManagerReply

/-- A successful `Ready`. -/
def Readied (e : ManagerEvent) : Prop := (∃ epoch, e.input = .ready epoch) ∧ e.output = .ok

/-- The active epoch and the traffic in a step of a rollout. -/
theorem event_active {score : ℚ → UInt16 → ℚ} (s : ManagerState) {op : ManagerOp} (hmay : s.May op)
    (hrollout : op.rollout = true) :
    s.manager.active ≤ (s.exec score op).2.manager.active ∧
    (Readied ((managerMachine score).event s op) →
      s.manager.active < (s.exec score op).2.manager.active) ∧
    (Readied ((managerMachine score).event s op) ∨ s.manager.traffic ≠ none →
      (s.exec score op).2.manager.traffic ≠ none) := by
  rcases (s.exec_change hmay hrollout).active with ⟨hactive, htraffic⟩ | ⟨hlt, hsome⟩
  · have hnot : ¬ Readied ((managerMachine score).event s op) := by
      rintro ⟨⟨epoch, rfl⟩, hok⟩
      rcases s.ready_exec epoch with ⟨hfailed, -⟩ | ⟨hlt, -⟩
      · exact hfailed hok
      · exact (UInt64.ne_of_lt hlt) hactive.symm
    rw [hactive]
    exact ⟨UInt64.le_refl _, fun h => absurd h hnot, fun h => htraffic (h.resolve_left hnot)⟩
  · exact ⟨UInt64.le_of_lt hlt, fun _ => hlt, fun _ => hsome⟩

/-- The state after a rollout. -/
def RolloutInv (history : List ManagerEvent) (s : ManagerState) : Prop :=
  s.manager.LeaseInv ∧ s.manager.TrafficInv ∧ ((∃ e ∈ history, Readied e) →
    s.manager.traffic ≠ none)

theorem rolloutInv_of_run {score : ℚ → UInt16 → ℚ} {history : List ManagerEvent} {s : ManagerState}
    (h : ((managerMachine score).restrict fun _ op => op.rollout = true).Run history s) :
    RolloutInv history s := by
  refine Machine.Run.invariant (M := (managerMachine score).restrict fun _ op =>
    op.rollout = true) ?_ ?_ h
  · rintro s rfl
    refine ⟨Manager.leaseInv_new, Manager.trafficInv_new, ?_⟩
    rintro ⟨e, he, -⟩
    cases he
  · rintro history s op ⟨hlease, htraffic, hreadied⟩ ⟨hmay, hrollout⟩
    refine ⟨ManagerState.leaseInv_exec hlease hmay,
      (s.exec_change hmay hrollout).trafficInv htraffic hlease,
      fun ⟨e, he, hready⟩ => (event_active s hmay hrollout).2.2 ?_⟩
    rcases List.mem_append.mp he with he | he
    · exact .inr (hreadied ⟨e, he, hready⟩)
    · rw [List.mem_singleton.mp he] at hready
      exact .inl hready

/-- **A rollout is safe.** After a successful `Ready`, every `Acquire` and `AcquireKey` returns a
ready epoch with a positive weight in the table. The active epoch only increases, and does so with
each successful `Ready`. The count of leases is exact, and a stopped epoch has none. A drainable
epoch can be drained. -/
theorem rollout_safe {score : ℚ → UInt16 → ℚ} {history : List ManagerEvent} {s : ManagerState}
    (h : ((managerMachine score).restrict fun _ op => op.rollout = true).Run history s) :
    ((∃ e ∈ history, Readied e) → ∀ key, ∃ n, (s.manager.acquire score key).1 = .ok n ∧
      (s.manager.acquire score key).2.isReady ((s.manager.acquire score key).2.leaseAt n).epoch =
        true ∧ (s.manager.acquire score key).2.currentWeight
        ((s.manager.acquire score key).2.leaseAt n).epoch ≠ 0) ∧
    (∀ e ∈ history, e.pre.manager.active ≤ e.post.manager.active ∧
      (Readied e → e.pre.manager.active < e.post.manager.active)) ∧
    (∀ epoch entry, s.manager.epochs.lookup epoch = some entry →
      entry.leases.toNat = (s.manager.unreleased epoch).card ∧
      (entry.state = .stopped → s.manager.unreleased epoch = ∅)) ∧
    (∀ epoch, s.manager.epochs.lookup epoch = none → s.manager.unreleased epoch = ∅) ∧
    ∀ epoch ∈ s.manager.drainable, (s.manager.drain epoch).1 = .ok () := by
  obtain ⟨hlease, htraffic, hreadied⟩ := rolloutInv_of_run h
  refine ⟨fun hready key => s.manager.acquire_ok score htraffic (hreadied hready) key,
    h.events fun _ s op _ hmay => (event_active s hmay.1 hmay.2).imp_right And.left,
    fun epoch entry hlookup => ⟨(hlease.entry epoch entry hlookup).count, fun hstopped => ?_⟩,
    hlease.known, fun epoch hdrainable => s.manager.drain_of_drainable htraffic hdrainable⟩
  rw [← Finset.card_eq_zero, ← (hlease.entry epoch entry hlookup).count]
  by_contra hleases
  have := (hlease.entry epoch entry hlookup).held fun hzero => hleases (by rw [hzero]; rfl)
  rw [hstopped] at this
  simp at this

/-! ## A rollout -/

namespace Rollout

/-- A snapshot without a table. -/
def snapshot (epoch : UInt64) : Snapshot :=
  ⟨epoch, "hash", {"p"}, Finmap.singleton "c" "p", ∅, none⟩

def score (_ : ℚ) (_ : UInt16) : ℚ := 1

def rollouts : Machine ManagerState ManagerOp ManagerReply :=
  (managerMachine score).restrict fun _ op => op.rollout = true

/-- Two epochs; the first one is drained and stopped while a call has a lease on it. -/
def inputs : List ManagerOp :=
  [.stage (snapshot 1), .ready 1, .acquire [], .stage (snapshot 2), .ready 2, .drain 1, .stop 1,
    .acquire (bytesOf "key"), .release 0, .stopIdle 0]

theorem run_inputs : rollouts.Run (rollouts.trace ⟨.new, []⟩ inputs)
    (rollouts.final ⟨.new, []⟩ inputs) := by
  have hallows : rollouts.Allows [] ⟨.new, []⟩ inputs :=
    ⟨⟨trivial, rfl⟩, ⟨trivial, rfl⟩, ⟨Manager.leasesFit_of_leaseCount (by decide +kernel), rfl⟩,
      ⟨trivial, rfl⟩, ⟨trivial, rfl⟩, ⟨trivial, rfl⟩, ⟨trivial, rfl⟩,
      ⟨Manager.leasesFit_of_leaseCount (by decide +kernel), rfl⟩,
        ⟨show 0 < _ by decide +kernel, rfl⟩,
      ⟨⟨⟨1, 1⟩, by rfl, by decide +kernel⟩, rfl⟩, trivial⟩
  exact (Machine.Run.init rfl).extend hallows

/-- The first epoch is stopped, and a call gets the second one. -/
theorem safe_inputs : (rollouts.final ⟨.new, []⟩ inputs).manager.isReady 1 = false ∧
    ∀ key, ∃ n, ((rollouts.final ⟨.new, []⟩ inputs).manager.acquire score key).1 = .ok n := by
  refine ⟨by decide +kernel, fun key => ?_⟩
  have hready : ∃ e ∈ rollouts.trace ⟨.new, []⟩ inputs, Readied e :=
    ⟨_, List.mem_cons_of_mem _ List.mem_cons_self, ⟨1, rfl⟩, by decide +kernel⟩
  obtain ⟨n, hn, -⟩ := (rollout_safe run_inputs).1 hready key
  exact ⟨n, hn⟩

end Rollout

end Keelith.Topology

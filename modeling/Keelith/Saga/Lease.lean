import Keelith.Coordination.Memory
import Keelith.Saga.Attempts

/-!
# Leases from the coordinator in memory

The owners of an instance with the coordinator that gives them their leases (`leasedMachine`).
`leased_run`: such a run is one of `sagaMachine`, with the same calls of handlers. So the fences of
that machine, which increase from one lease to the next, are those of the coordinator, as long as a
key has fewer than `2^64` leases.

`leaseKey_identifies_iff`: which keys the coordinator accepts, and which are keys of one instance
only.
-/

namespace Keelith.Saga

open Coordination (Coordinator Lease)

/-- The key of the lease. -/
def leaseKey (engine : Engine) (id : String) : String :=
  "saga/" ++ engine.definition.name ++ "/" ++ id

/-- The owners and their coordinator. -/
structure LeasedState where
  saga : SagaState
  coordinator : Coordinator

/-- The steps. -/
inductive LeasedOp where
  /-- `Run` is called in a context with this cause. -/
  | run (ttl : Int) (cause : Option String)
  /-- The owner with this fence releases its lease. -/
  | release (fence : UInt64) (cause : Option String)
  | step (fence : UInt64) (op : OwnerOp)

/-- A step. -/
def LeasedState.exec (engine : Engine) (id : String) (s : LeasedState) :
    LeasedOp → SagaReply × LeasedState
  | .run ttl cause =>
    if !validIdentity id maxIdentityBytes then (.silent, s)
    else
      match s.coordinator.tryAcquire (leaseKey engine id) ttl cause with
      | (.error _, coordinator) => (.silent, { s with coordinator })
      | (.ok none, coordinator) => (.contended, { s with coordinator })
      | (.ok (some lease), coordinator) =>
        (.silent, ⟨(s.saga.exec engine id (.acquire lease.fence)).2, coordinator⟩)
  | .release fence cause =>
    let coordinator := (s.coordinator.release ⟨leaseKey engine id, fence⟩ cause).2
    if (coordinator.leases.lookup (leaseKey engine id)).isNone then
      (.silent, ⟨(s.saga.exec engine id .leaseEnds).2, coordinator⟩)
    else (.silent, { s with coordinator })
  | .step fence op =>
    ((s.saga.exec engine id (.step fence op)).1,
      { s with saga := (s.saga.exec engine id (.step fence op)).2 })

/-- The runs of one instance. The fences of its key do not start again. -/
def leasedMachine (engine : Engine) (id : String) : Machine LeasedState LeasedOp SagaReply where
  init s := s = ⟨⟨.new, none, 0, fun _ => none⟩, .new⟩
  exec s op := s.exec engine id op
  may _ s _ :=
    s.coordinator.fence (leaseKey engine id) < s.coordinator.fence (leaseKey engine id) + 1

/-- The owners hold the lease of their coordinator. -/
structure Leased (engine : Engine) (id : String) (s : LeasedState) : Prop where
  fence : s.coordinator.fence (leaseKey engine id) = s.saga.lastFence
  holder : (s.coordinator.leases.lookup (leaseKey engine id)).map Lease.fence = s.saga.holder

variable {engine : Engine} {id : String} {s : LeasedState}

/-- The steps of owners leave the lease alone. -/
theorem lease_step (s : SagaState) (fence : UInt64) (op : OwnerOp) :
    (s.exec engine id (.step fence op)).2.lastFence = s.lastFence ∧
      (s.exec engine id (.step fence op)).2.holder = s.holder := by
  simp only [SagaState.exec]
  split <;> exact ⟨rfl, rfl⟩

theorem acquire_fresh {s : SagaState} (hid : validIdentity id maxIdentityBytes = true)
    (hholder : s.holder = none) (fence : UInt64) :
    s.exec engine id (.acquire fence) = (.silent, { s with
      holder := some fence, lastFence := fence, owners :=
        Function.update s.owners fence (some {}) }) := by
  simp [SagaState.exec, hid, hholder]

/-- A step of the owners with their coordinator is a step of the owners, or none. -/
theorem Leased.step (h : Leased engine id s) (op : LeasedOp)
    (hmay : s.coordinator.fence (leaseKey engine id) < s.coordinator.fence (leaseKey engine id) +
      1) : Leased engine id (s.exec engine id op).2 ∧
      ((s.exec engine id op).2.saga = s.saga ∧ (s.exec engine id op).1.identity = none ∨
        ∃ op', s.saga.May op' ∧ (s.exec engine id op).2.saga = (s.saga.exec engine id op').2 ∧
          (s.exec engine id op).1.identity = (s.saga.exec engine id op').1.identity) := by
  cases op with
  | run ttl cause =>
    simp only [LeasedState.exec]
    split
    · exact ⟨h, .inl ⟨rfl, rfl⟩⟩
    next hid =>
      rcases s.coordinator.tryAcquire_cases (leaseKey engine id) ttl cause with
        ⟨err, heq⟩ | ⟨-, heq⟩ | ⟨hnone, heq⟩
      · rw [heq]
        exact ⟨h, .inl ⟨rfl, rfl⟩⟩
      · rw [heq]
        exact ⟨h, .inl ⟨rfl, rfl⟩⟩
      · rw [heq]
        have hholder : s.saga.holder = none := by rw [← h.holder, hnone, Option.map_none]
        have hacquire := @acquire_fresh engine id s.saga (by simpa using hid) hholder
          (s.coordinator.fence (leaseKey engine id) + 1)
        refine ⟨⟨?_, ?_⟩, .inr ⟨.acquire (s.coordinator.fence (leaseKey engine id) + 1),
          ?_, rfl, ?_⟩⟩
        · simp only [hacquire]
          simp [Coordinator.fence]
        · simp only [hacquire]
          simp
        · rw [SagaState.May, ← h.fence]
          exact hmay
        · rw [hacquire]
  | release fence cause =>
    simp only [LeasedState.exec]
    have hfence (lease : Lease) : (s.coordinator.release lease cause).2.fence (leaseKey engine id) =
        s.coordinator.fence (leaseKey engine id) := by
      unfold Coordinator.release
      split
      · rfl
      · split <;> rfl
    split
    next hnone =>
      refine ⟨⟨(hfence _).trans h.fence, ?_⟩, .inr ⟨.leaseEnds, trivial, rfl, rfl⟩⟩
      rw [Option.isNone_iff_eq_none.mp hnone]
      rfl
    next hsome =>
      refine ⟨⟨(hfence _).trans h.fence, ?_⟩, .inl ⟨rfl, rfl⟩⟩
      rw [← h.holder]
      unfold Coordinator.release at hsome ⊢
      split
      · rfl
      · split
        next hheld =>
          simp [hheld] at hsome
        next => rfl
  | step fence op =>
    obtain ⟨hlast, hholder⟩ := @lease_step engine id s.saga fence op
    exact ⟨⟨h.fence.trans hlast.symm, h.holder.trans hholder.symm⟩,
      .inr ⟨.step fence op, trivial, rfl, rfl⟩⟩

/-- **Leases from the coordinator in memory**: the owners run as they do with fences that
increase. -/
theorem leased_run {history : List (Event LeasedState LeasedOp SagaReply)}
    (h : (leasedMachine engine id).Run history s) :
    ∃ shadow, (sagaMachine engine id).Run shadow s.saga ∧
      identities shadow = history.filterMap fun e => e.output.identity := by
  have hinv := Machine.Run.invariant (M := leasedMachine engine id)
    (I := fun history s => Leased engine id s ∧ ∃ shadow,
      (sagaMachine engine id).Run shadow s.saga ∧
      identities shadow = history.filterMap fun e => e.output.identity) ?_ ?_ h
  · exact hinv.2
  · rintro s rfl
    exact ⟨⟨by simp [Coordinator.new, Coordinator.fence], by simp [Coordinator.new]⟩, [],
      .init rfl, rfl⟩
  · rintro history s op ⟨hleased, shadow, hrun, hcalls⟩ hmay
    obtain ⟨hleased, ⟨hsame, hsilent⟩ | ⟨op', hmay', hstep, hreply⟩⟩ := hleased.step op hmay
    · refine ⟨hleased, shadow, ?_, ?_⟩
      · rw [← hsame] at hrun
        exact hrun
      · rw [List.filterMap_append, ← hcalls]
        simp [leasedMachine, hsilent]
    · have hrun := hrun.step op' hmay'
      refine ⟨hleased, _, hstep ▸ hrun, ?_⟩
      have hlast : ((leasedMachine engine id).event s op).output.identity =
          ((sagaMachine engine id).event s.saga op').output.identity := hreply
      unfold identities at hcalls ⊢
      rw [List.filterMap_append, List.filterMap_append, hcalls]
      simp only [List.filterMap_cons, List.filterMap_nil, hlast]

instance decidableLeasedMay (engine : Engine) (id : String)
    (history : List (Event LeasedState LeasedOp SagaReply))
    (s : LeasedState) (op : LeasedOp) : Decidable ((leasedMachine engine id).may history s op) :=
  inferInstanceAs (Decidable (_ < _))

/-- An owner gets its lease from the coordinator and calls the first action. -/
theorem leased_first_action : ∃ shadow s, (sagaMachine StaleOwner.orders "order-1").Run shadow s ∧
    identities shadow = [(.action, 0, 1)] := by
  have hrun := (Machine.Run.init (M := leasedMachine StaleOwner.orders "order-1") rfl).extend
    (by decide +kernel : Machine.Allows _ _ _ [.run 1 none, .step 1 (.load none),
      .step 1 (.create 1 none), .step 1 (.turn none), .step 1 (.save 1 none), .step 1 .invoke])
  obtain ⟨shadow, hshadow, hcalls⟩ := leased_run hrun
  exact ⟨shadow, _, hshadow, hcalls.trans (by decide +kernel)⟩

/-! ## Keys -/

/-- Two instances with one key: the second name goes on with a part of the first id. -/
def Shifted (name id name' id' : String) : Prop := ∃ middle, name' = name ++ "/" ++ middle ∧
    id = middle ++ "/" ++ id'

theorem Shifted.ne {name id name' id' : String} (h : Shifted name id name' id') : name ≠ name' := by
  obtain ⟨middle, rfl, -⟩ := h
  intro heq
  have hsize := congrArg String.utf8ByteSize heq
  have hslash : "/".utf8ByteSize = 1 := by decide
  simp only [String.utf8ByteSize_append] at hsize
  omega

theorem shifted_of_append {name id name' id' : String} {rest : List Char}
    (hname : name'.toList = name.toList ++ rest)
    (hid : '/' :: id.toList = rest ++ '/' :: id'.toList) :
    name = name' ∧ id = id' ∨ Shifted name id name' id' := by
  cases rest with
  | nil => exact .inl ⟨String.ext (by simp [hname]), String.ext (List.cons.inj hid).2⟩
  | cons c middle =>
    simp only [List.cons_append, List.cons.injEq] at hid
    obtain ⟨rfl, hid⟩ := hid
    exact .inr ⟨String.ofList middle, String.ext (by simp [hname]), String.ext (by simp [hid])⟩

theorem append_slash_eq_iff {name id name' id' : String} : name ++ "/" ++ id = name' ++ "/" ++ id' ↔
    name = name' ∧ id = id' ∨ Shifted name id name' id' ∨ Shifted name' id' name id := by
  constructor
  · intro h
    have hlist := congrArg String.toList h
    simp only [String.toList_append, List.append_assoc] at hlist
    rcases List.append_eq_append_iff.mp hlist with ⟨rest, hname, hid⟩ | ⟨rest, hname, hid⟩
    · exact (shifted_of_append hname hid).imp_right .inl
    · exact (shifted_of_append hname hid).imp (fun h => ⟨h.1.symm, h.2.symm⟩) .inr
  · rintro (⟨rfl, rfl⟩ | ⟨middle, rfl, rfl⟩ | ⟨middle, rfl, rfl⟩) <;>
      simp only [String.append_assoc]

/-- The coordinator takes a key of at most 512 bytes. -/
theorem validKey_leaseKey_iff (engine : Engine) {id : String}
    (hid : validIdentity id maxIdentityBytes = true) :
    Coordination.validKey (leaseKey engine id) = true ↔
      engine.definition.name.utf8ByteSize + id.utf8ByteSize ≤ 506 := by
  have hname : validIdentity engine.definition.name maxIdentityBytes = true := by
    have hvalid := engine.valid
    unfold Definition.validate at hvalid
    split at hvalid
    · cases hvalid
    next hargs => simp_all
  simp only [validIdentity, Bool.and_eq_true, beq_iff_eq] at hid hname
  have hne : id.toList ≠ [] := by simpa using hid.1.1.1
  have htrim : trimSpace (leaseKey engine id) = leaseKey engine id := by
    have hlast : isSpace (id.toList.getLast hne) = false := by
      have hdrop : (id.toList.dropWhile isSpace).rdropWhile isSpace = id.toList := by
        rw [← String.toList_ofList (l := List.rdropWhile _ _), ← trimSpace, hid.1.2]
      simpa [hdrop] using List.rdropWhile_last_not isSpace (id.toList.dropWhile isSpace)
        (by rwa [hdrop])
    have hlist : (leaseKey engine id).toList =
        's' :: ("aga/".toList ++ engine.definition.name.toList ++ ['/'] ++ id.toList) := by
          simp [leaseKey]
    rw [trimSpace, hlist, List.dropWhile_cons_of_neg (by decide),
      List.rdropWhile_eq_self_iff.mpr, ← hlist, String.ofList_toList]
    simp [hne, hlast]
  have hcontrol : (leaseKey engine id).toList.all (fun r => !isControl r) = true := by
    have hplain : ("saga/".toList.all fun r => !isControl r) = true ∧
      ("/".toList.all fun r => !isControl r) = true := by decide
    simp only [leaseKey, String.toList_append, List.all_append, hplain, hname.2, hid.2,
      Bool.and_self]
  have hsize : (leaseKey engine id).utf8ByteSize = engine.definition.name.utf8ByteSize +
      id.utf8ByteSize + 6 := by
    have hparts : "saga/".utf8ByteSize = 5 ∧ "/".utf8ByteSize = 1 := by decide
    simp only [leaseKey, String.utf8ByteSize_append]
    omega
  have hkey : leaseKey engine id ≠ "" := fun h => by simp [h] at hsize
  simp [Coordination.validKey, boundedText, htrim, hcontrol, hsize, hkey]

/-- **Keys of instances.** A key is accepted if it is not too long, and it is the key of one
instance if no slash can be moved from the id to the name. -/
theorem leaseKey_identifies_iff (engine engine' : Engine) {id : String}
    (hid : validIdentity id maxIdentityBytes = true) (id' : String) :
    (Coordination.validKey (leaseKey engine id) = true ∧
      (leaseKey engine id = leaseKey engine' id' →
      engine.definition.name = engine'.definition.name ∧ id = id')) ↔
    engine.definition.name.utf8ByteSize + id.utf8ByteSize ≤ 506 ∧
      ¬ Shifted engine.definition.name id engine'.definition.name id' ∧
      ¬ Shifted engine'.definition.name id' engine.definition.name id := by
  have hkey : leaseKey engine id = leaseKey engine' id' ↔
      engine.definition.name ++ "/" ++ id = engine'.definition.name ++ "/" ++ id' := by
    simp [leaseKey, String.append_assoc]
  rw [validKey_leaseKey_iff engine hid, hkey, append_slash_eq_iff, ← not_or]
  refine and_congr_right fun _ => ⟨fun h hshifted => ?_, fun h heq => heq.resolve_right h⟩
  rcases hshifted with hshifted | hshifted
  · exact hshifted.ne (h (.inr (.inl hshifted))).1
  · exact hshifted.ne (h (.inr (.inr hshifted))).1.symm

/-- A saga of one step. -/
def oneStep (name : String) (h : Definition.validate ⟨name, "1", [⟨"s", true, false⟩]⟩ = .ok ()) :
    Engine :=
  ⟨⟨name, "1", [⟨"s", true, false⟩]⟩, 1, h, by decide⟩

/-- The instances `1` of the sagas `shop` and `shop/us`. -/
theorem leaseKey_identifies_shops : ∃ engine engine' : Engine, engine.definition.name = "shop" ∧
    engine'.definition.name = "shop/us" ∧ Coordination.validKey (leaseKey engine "1") = true ∧
    leaseKey engine "1" ≠ leaseKey engine' "1" := by
  let shop := oneStep "shop" (by decide +kernel)
  let us := oneStep "shop/us" (by decide +kernel)
  have hno (name name' : String) : ¬ Shifted name "1" name' "1" := by
    rintro ⟨middle, -, hid⟩
    have hlength := congrArg String.length hid
    simp only [String.length_append] at hlength
    exact absurd hlength (by rw [show "1".length = 1 from rfl, show "/".length = 1 from rfl]; omega)
  obtain ⟨hvalid, hsame⟩ := (leaseKey_identifies_iff shop us (by decide +kernel) "1").mpr
    ⟨by decide +kernel, hno _ _, hno _ _⟩
  exact ⟨shop, us, rfl, rfl, hvalid, fun heq => absurd (hsame heq).1 (by decide)⟩

/-- The instance `b/c` of the saga `a` and the instance `c` of the saga `a/b`. -/
theorem shared_leaseKey : ∃ (engine engine' : Engine) (id id' : String),
    validIdentity id maxIdentityBytes = true ∧
    validIdentity id' maxIdentityBytes = true ∧ id ≠ id' ∧
      leaseKey engine id = leaseKey engine' id' :=
  ⟨oneStep "a" (by decide +kernel), oneStep "a/b" (by decide +kernel), "b/c",
    "c", by decide +kernel⟩

end Keelith.Saga

import Keelith.Selector.Model
import Mathlib.Data.Rat.Defs

/-!
# Filters under updates

A call of `Select` filters a copy of the nodes and then returns the node that its selector holds
under the key of an eligible one.

* **Objects** (`Keyed`): the node of an object has the key under which the selector finds the
  object. `Update` keeps this, and every node it leaves in the map is one of the snapshot's
  (`update_spec`).
* **Between the sections** (`Held`): what the selector holds under the key of an accepted node is
  accepted. Every step but `Update` keeps this; of `Update` it is the condition (`steady`).
* `filters_honoured`; `Changed` is a run of each selector in which a node changes between the two
  sections.
-/

namespace Keelith.Selector

variable {φ : Type}

/-! ## Objects -/

/-- The object of a key has a node with this key. -/
def Keyed (nodes : Map Bytes Nat) (heapNodes : List Node) : Prop :=
  ∀ key index, nodes.lookup key = some index → ∃ n, heapNodes[index]? = some n ∧ n.key = key

namespace Shared

variable {s : Shared φ} {old : Map Bytes Nat} {n : Node} {renew : Option φ → φ}

theorem install_nodes (old : Map Bytes Nat) (s : Shared φ) (n : Node) (renew : Option φ → φ) :
    (s.install old n renew).nodes = s.nodes.insert n.key
      ((old.lookup n.key).getD s.heap.length) := by
  unfold install
  cases old.lookup n.key <;> rfl

theorem install_heapNodes_of_none (h : old.lookup n.key = none) :
    (s.install old n renew).heapNodes = s.heapNodes ++ [n] := by
  unfold install
  rw [h]
  simp [heapNodes]

theorem install_heapNodes_of_some {place : Nat} (h : old.lookup n.key = some place) (i : Nat) :
    (s.install old n renew).heapNodes[i]? =
      if i = place then (s.heapNodes[i]?).map (fun _ => n) else s.heapNodes[i]? := by
  unfold install
  rw [h, heapNodes, heapNodes, List.getElem?_map, List.getElem?_map]
  rw [List.getElem?_modify]
  rcases eq_or_ne i place with rfl | hne
  · rw [if_pos rfl]
    cases s.heap[i]? with
    | none => rfl
    | some state => simp
  · rw [if_neg hne]
    cases s.heap[i]? with
    | none => rfl
    | some state => simp [hne.symm]

/-- The objects of other keys stay, and the object of the key of the node gets the node. -/
theorem install_get (n : Node) (renew : Option φ → φ) (hold : Keyed old s.heapNodes)
    {i : Nat} {m : Node} (hm : s.heapNodes[i]? = some m) :
    ∃ m', (s.install old n renew).heapNodes[i]? = some m' ∧ m'.key = m.key ∧ (m' = m ∨ m' = n) := by
  cases hplace : old.lookup n.key with
  | none =>
    refine ⟨m, ?_, rfl, .inl rfl⟩
    rw [install_heapNodes_of_none hplace,
      List.getElem?_append_left (List.getElem?_eq_some_iff.mp hm).1, hm]
  | some place =>
    rw [install_heapNodes_of_some hplace, hm]
    split
    next he =>
      obtain ⟨before, hbefore, hkey⟩ := hold n.key place hplace
      obtain rfl : before = m := Option.mem_unique hbefore (he ▸ hm)
      exact ⟨n, rfl, hkey.symm, .inr rfl⟩
    next => exact ⟨m, rfl, rfl, .inl rfl⟩

theorem install_get_self (hold : Keyed old s.heapNodes) :
    (s.install old n renew).heapNodes[(old.lookup n.key).getD s.heap.length]? = some n := by
  cases hplace : old.lookup n.key with
  | none =>
    rw [install_heapNodes_of_none hplace, Option.getD_none,
      show s.heap.length = s.heapNodes.length by simp [heapNodes],
      List.getElem?_concat_length]
  | some place =>
    obtain ⟨before, hbefore, -⟩ := hold n.key place hplace
    rw [install_heapNodes_of_some hplace, Option.getD_some, if_pos rfl, hbefore]
    rfl

/-- After one pass the objects of the old keys have their keys, and those of the new map come from
the list. -/
theorem install_spec {entries : List Node} (hn : n ∈ entries) (hold : Keyed old s.heapNodes)
    (hnew : ∀ key index, s.nodes.lookup key = some index →
      ∃ m ∈ entries, s.heapNodes[index]? = some m ∧ m.key = key) :
    Keyed old (s.install old n renew).heapNodes ∧
      ∀ key index, (s.install old n renew).nodes.lookup key = some index →
        ∃ m ∈ entries, (s.install old n renew).heapNodes[index]? = some m ∧ m.key = key := by
  constructor
  · intro key index hlookup
    obtain ⟨m, hm, hkey⟩ := hold key index hlookup
    obtain ⟨m', hm', hsame, -⟩ := install_get n renew hold hm
    exact ⟨m', hm', hsame.trans hkey⟩
  · intro key index hlookup
    rw [install_nodes] at hlookup
    rcases eq_or_ne key n.key with rfl | hne
    · rw [Finmap.lookup_insert] at hlookup
      cases hlookup
      exact ⟨n, hn, install_get_self hold, rfl⟩
    · rw [Finmap.lookup_insert_of_ne _ hne] at hlookup
      obtain ⟨m, hm, hget, hkey⟩ := hnew key index hlookup
      obtain ⟨m', hm', hsame, rfl | rfl⟩ := install_get n renew hold hget
      · exact ⟨m', hm, hm', hkey⟩
      · exact ⟨m', hn, hm', hsame.trans hkey⟩

end Shared

variable {s : Shared φ}

/-- What `Update` leaves in the map: nodes of the snapshot under their keys. -/
theorem Policy.update_spec (P : Policy φ) {snapshot : Snapshot}
    {entries : List (Node × (Option φ → φ))} (h : P.renewals s snapshot = some entries)
    (hkeyed : Keyed s.nodes s.heapNodes) (key : Bytes) (index : Nat)
    (hlookup : (P.update s snapshot).nodes.lookup key = some index) :
    ∃ m ∈ entries.map Prod.fst, (P.update s snapshot).heapNodes[index]? = some m ∧ m.key = key := by
  have hfold := List.foldlRecOn entries (fun next e => next.install s.nodes e.1 e.2)
    (b := { s with nodes := ∅ })
    (motive := fun t => Keyed s.nodes t.heapNodes ∧ ∀ key index, t.nodes.lookup key = some index →
      ∃ m ∈ entries.map Prod.fst, t.heapNodes[index]? = some m ∧ m.key = key)
    ⟨hkeyed, by simp⟩ fun t ht e he => Shared.install_spec (List.mem_map_of_mem he) ht.1 ht.2
  unfold Policy.update at hlookup ⊢
  rw [h] at hlookup ⊢
  exact hfold.2 key index hlookup

theorem keyed_update (P : Policy φ) {snapshot : Snapshot} (hkeyed : Keyed s.nodes s.heapNodes) :
    Keyed (P.update s snapshot).nodes (P.update s snapshot).heapNodes := by
  cases h : P.renewals s snapshot with
  | none =>
    rw [show P.update s snapshot = s by rw [Policy.update, h]]
    exact hkeyed
  | some entries =>
    intro key index hlookup
    obtain ⟨m, -, hm⟩ := P.update_spec h hkeyed key index hlookup
    exact ⟨m, hm⟩

/-! ## The condition -/

/-- The nodes that a call between its two critical sections has. -/
def SelectPhase.held : SelectPhase → List Node
  | .copied _ nodes => nodes
  | .filtered eligible => eligible
  | _ => []

/-- The node that the call has returned. -/
def SelectPhase.node? : SelectPhase → Option Node
  | .returned node _ => some node
  | .done node => some node
  | _ => none

namespace System

/-- An `Update` that comes between the two critical sections of a call keeps the nodes that the
filters accept for this call acceptable: the new node under the key of such a node, if there is one,
is accepted too. -/
def steady (P : Policy φ) (settings : Settings) (s : System φ) : Input → Prop
  | .update snapshot =>
    ∀ entries, P.renewals s.shared snapshot = some entries → ∀ c ∈ s.selects, ∀ n ∈ c.phase.held,
      settings.accepts c.operation n = true → ∀ m ∈ entries.map Prod.fst, m.key = n.key →
        settings.accepts c.operation m = true
  | _ => True

/-! ## The invariant -/

/-- What the selector holds under the key of an accepted node is accepted. -/
def Held (settings : Settings) (shared : Shared φ) (operation : Operation)
    (nodes : List Node) : Prop :=
  ∀ n ∈ nodes, settings.accepts operation n = true → ∀ (index : Nat) (m : Node),
    shared.nodes.lookup n.key = some index → shared.heapNodes[index]? = some m →
      settings.accepts operation m = true

/-- What a call may rely on. -/
structure CallOk (settings : Settings) (shared : Shared φ) (c : SelectCall) : Prop where
  held : Held settings shared c.operation c.phase.held
  filtered : ∀ eligible, c.phase = .filtered eligible → ∀ n ∈ eligible,
    settings.accepts c.operation n = true
  returned : ∀ n, c.phase.node? = some n → settings.accepts c.operation n = true

/-- The invariant. -/
structure Inv (settings : Settings) (s : System φ) : Prop where
  keyed : Keyed s.shared.nodes s.shared.heapNodes
  calls : ∀ c ∈ s.selects, CallOk settings s.shared c

variable {P : Policy φ} {settings : Settings} {s : System φ}

variable {n : Node} {shared : Shared φ} {c : SelectCall}

theorem mem_eligibleNodes {canceled : Bool} {allow : Node → Bool} {operation : Operation}
    {nodes eligible : List Node}
    (h : eligibleNodes settings canceled allow operation nodes = some eligible)
    (hn : n ∈ eligible) : n ∈ nodes ∧ settings.accepts operation n = true := by
  have hpreferred : ∀ (tiers : List (List (Bytes × Bytes))) (l : List Node),
      n ∈ preferredNodes l tiers → n ∈ l := by
    intro tiers l
    induction tiers with
    | nil => exact id
    | cons tier tiers ih =>
      intro hmem
      unfold preferredNodes at hmem
      dsimp only at hmem
      split at hmem
      next => exact ih hmem
      next => exact List.mem_of_mem_filter hmem
  unfold eligibleNodes at h
  split at h
  next => cases h
  next =>
    dsimp only at h
    split at h
    next => cases h
    next =>
      cases h
      have hfiltered := List.mem_filter.mp (hpreferred _ _ hn)
      exact ⟨hfiltered.1, (Bool.and_eq_true_iff.mp hfiltered.2).1⟩

/-- The copy of the nodes is what the selector holds under their keys. -/
theorem mem_nodesOf (hkeyed : Keyed shared.nodes shared.heapNodes) {order : List Bytes}
    (hn : n ∈ nodesOf shared order) (index : Nat)
    (hindex : shared.nodes.lookup n.key = some index) : shared.heapNodes[index]? = some n := by
  obtain ⟨key, -, hkey⟩ := List.mem_filterMap.mp hn
  obtain ⟨place, hplace, hget⟩ := Option.bind_eq_some_iff.mp hkey
  obtain ⟨m, hm, hmkey⟩ := hkeyed key place hplace
  obtain rfl : m = n := Option.mem_unique hm hget
  rw [hmkey, hplace] at hindex
  rw [← Option.some.inj hindex]
  exact hget

/-- The chosen node is what the selector holds under the key of an eligible node. -/
theorem chooseNode_spec {eligible : List Node} {index : Nat}
    (h : (chooseNode P shared eligible).1 = .returned n index) :
    ∃ m ∈ eligible, shared.nodes.lookup m.key = some index ∧ shared.heapNodes[index]? = some n := by
  unfold chooseNode at h
  dsimp only at h
  split at h
  next => cases h
  next hne =>
    split at h
    next => cases h
    next node hnode =>
      obtain ⟨rfl, rfl⟩ := SelectPhase.returned.inj h
      rw [P.choose_heapNodes] at hnode
      obtain ⟨m, hm, hlookup⟩ := List.mem_filterMap.mp (P.choose_mem shared _ hne)
      exact ⟨m, hm, hlookup, hnode⟩

theorem chooseNode_phase (shared : Shared φ) (eligible : List Node) :
    (chooseNode P shared eligible).1 = .failed ∨
      ∃ n index, (chooseNode P shared eligible).1 = .returned n index := by
  unfold chooseNode
  dsimp only
  split
  next => exact .inl rfl
  next =>
    split
    next => exact .inl rfl
    next node _ => exact .inr ⟨node, _, rfl⟩

/-- A call changes no node and no key. -/
theorem stepSelect_shared (s : System φ) (c : SelectCall) (i : Input) :
    (stepSelect P settings s c i).2.nodes = s.shared.nodes ∧
      (stepSelect P settings s c i).2.heapNodes = s.shared.heapNodes := by
  unfold stepSelect
  split
  next => split <;> exact ⟨rfl, rfl⟩
  next =>
    split
    next =>
      split
      next => exact ⟨rfl, rfl⟩
      next => split <;> exact ⟨rfl, rfl⟩
    next => exact ⟨rfl, rfl⟩
  next =>
    split
    next eligible _ =>
      unfold chooseNode
      dsimp only
      split
      next => exact ⟨rfl, rfl⟩
      next => split <;> exact ⟨P.choose_nodes _ _, P.choose_heapNodes _ _⟩
    next => exact ⟨rfl, rfl⟩
  next =>
    split
    next => exact ⟨Shared.learn_nodes .., Shared.learn_heapNodes ..⟩
    next => exact ⟨rfl, rfl⟩
  next => exact ⟨rfl, rfl⟩

theorem CallOk.congr {first second : Shared φ} (h : CallOk settings first c)
    (hnodes : second.nodes = first.nodes) (hheap : second.heapNodes = first.heapNodes) :
    CallOk settings second c := by
  refine ⟨?_, h.filtered, h.returned⟩
  unfold Held
  rw [hnodes, hheap]
  exact h.held

/-- The call that moves may rely on the same. -/
theorem CallOk.step (h : Inv settings s) (hc : CallOk settings s.shared c) (i : Input) :
    CallOk settings s.shared { c with phase := (stepSelect P settings s c i).1 } := by
  have hfailed : CallOk settings s.shared { c with phase := .failed } :=
    ⟨nofun, nofun, nofun⟩
  unfold stepSelect
  split
  next order =>
    split
    next =>
      refine ⟨?_, nofun, nofun⟩
      intro n hn haccepts index m hindex hm
      have hn : n ∈ nodesOf s.shared order := (P.mem_arrange _ _).mp hn
      rw [mem_nodesOf h.keyed hn index hindex] at hm
      rw [← Option.some.inj hm]
      exact haccepts
    next => exact hc
  next =>
    split
    next service nodes hphase =>
      split
      next => exact hfailed
      next =>
        split
        next => exact hfailed
        next eligible heligible =>
          have hheld : Held settings s.shared c.operation nodes := by
            have := hc.held
            rw [hphase] at this
            exact this
          refine ⟨fun n hn => hheld n (mem_eligibleNodes heligible hn).1, ?_, nofun⟩
          intro eligible' heq n hn
          obtain rfl := SelectPhase.filtered.inj heq
          exact (mem_eligibleNodes heligible hn).2
    next => exact hc
  next =>
    split
    next eligible hphase =>
      rcases chooseNode_phase (P := P) s.shared eligible with hchosen | ⟨n, index, hchosen⟩
      · rw [hchosen]
        exact hfailed
      · rw [hchosen]
        refine ⟨nofun, nofun, ?_⟩
        intro m hm
        cases hm
        obtain ⟨m, hmem, hlookup, hget⟩ := chooseNode_spec hchosen
        have hheld := hc.held
        rw [hphase] at hheld
        exact hheld m hmem (hc.filtered eligible hphase m hmem) index n hlookup hget
    next => exact hc
  next =>
    split
    next node index hphase =>
      refine ⟨nofun, nofun, ?_⟩
      intro m hm
      exact hc.returned m (by rw [hphase]; exact hm)
    next => exact hc
  next => exact hc

theorem Inv.moveSelect (h : Inv settings s) (index : Nat) (i : Input) :
    Inv settings (moveSelect P settings s index i) := by
  unfold System.moveSelect
  cases hcall : s.selects[index]? with
  | none => exact h
  | some c =>
    obtain ⟨hnodes, hheap⟩ := stepSelect_shared (P := P) s c i
    refine ⟨?_, fun d hd => ?_⟩
    · rw [hnodes, hheap]
      exact h.keyed
    · rcases List.mem_or_eq_of_mem_set hd with hd | rfl
      · exact (h.calls d hd).congr hnodes hheap
      · exact (CallOk.step h (h.calls c (List.mem_of_getElem? hcall)) i).congr hnodes hheap

theorem Inv.update (h : Inv settings s) {snapshot : Snapshot}
    (hsteady : steady P settings s (.update snapshot)) :
    Inv settings { s with shared := P.update s.shared snapshot } := by
  refine ⟨keyed_update P h.keyed, fun c hc => ?_⟩
  have hok := h.calls c hc
  cases hentries : P.renewals s.shared snapshot with
  | none =>
    rw [show P.update s.shared snapshot = s.shared by rw [Policy.update, hentries]]
    exact hok
  | some entries =>
    refine ⟨?_, hok.filtered, hok.returned⟩
    intro n hn haccepts index m hindex hm
    obtain ⟨m', hm', hget, hkey⟩ := P.update_spec hentries h.keyed n.key index hindex
    obtain rfl : m' = m := Option.mem_unique hget hm
    exact hsteady entries hentries c hc n hn haccepts m' hm' hkey

theorem Inv.exec (h : Inv settings s) {i : Input} (hsteady : steady P settings s i) :
    Inv settings (exec P settings s i).2 := by
  cases i with
  | update snapshot => exact h.update hsteady
  | select operation =>
    exact ⟨h.keyed, forall_mem_snoc.mpr ⟨h.calls, nofun, nofun, nofun⟩⟩
  | copy call | filter call | choose call | done call => exact h.moveSelect call _

theorem inv_new (seed : UInt64) : Inv settings (.new seed : System φ) :=
  ⟨nofun, nofun⟩

/-- The machine with steady updates. -/
abbrev steadyMachine (P : Policy φ) (settings : Settings) (seed : UInt64) :
    Machine (System φ) Input Unit :=
  (machine P settings seed).restrict (steady P settings)

/-- In every run with steady updates, the filters accept every node that a call of `Select`
returns. -/
def Honours (P : Policy φ) (settings : Settings) : Prop :=
  ∀ (seed : UInt64) (history : List (Event (System φ) Input Unit)) (s : System φ),
    (steadyMachine P settings seed).Run history s →
      ∀ c ∈ s.selects, ∀ n, c.phase.node? = some n → ∀ filter ∈ settings.filters,
        filter c.operation n = true

theorem honours (P : Policy φ) (settings : Settings) : Honours P settings := by
  intro seed history s hrun c hc n hn filter hfilter
  have hinv : Inv settings s := by
    refine hrun.invariant (I := fun _ s => Inv settings s) ?_ ?_
    · rintro _ rfl
      exact inv_new seed
    · intro _ s i hinv hmay
      exact hinv.exec hmay.2
  exact List.all_eq_true.mp ((hinv.calls c hc).returned n hn) filter hfilter

/-- The three selectors return only nodes that every filter accepts, if updates are steady. -/
theorem filters_honoured {ρ : Type} (F : Floats ρ) (urls : Urls) (schemes : List Bytes)
    (capacityKey scheme weightKey : Bytes) (settings : Settings) :
    Honours (p2c F urls schemes) settings ∧
      Honours (capacityP2C F urls schemes capacityKey) settings ∧
      Honours (weightedRoundRobin urls scheme weightKey) settings :=
  ⟨honours _ _, honours _ _, honours _ _⟩

end System

/-! ## A node that changes -/

namespace Changed

open Keelith.Selector.System

instance (P : Policy φ) (settings : Settings) (s : System φ) (i : Input) :
    Decidable (steady P settings s i) :=
  match i with
  | .update snapshot =>
    match h : P.renewals s.shared snapshot with
    | none => isTrue fun entries he => by rw [h] at he; cases he
    | some entries =>
      decidable_of_iff (∀ c ∈ s.selects, ∀ n ∈ c.phase.held, settings.accepts c.operation n = true →
        ∀ m ∈ entries.map Prod.fst, m.key = n.key → settings.accepts c.operation m = true)
        ⟨fun hall entries' he => by
          rw [h] at he; obtain rfl := Option.some.inj he; exact hall, fun hall => hall entries h⟩
  | .select _ | .copy .. | .filter .. | .choose _ | .done .. => isTrue trivial

instance (P : Policy φ) (settings : Settings) (seed : UInt64)
    (history : List (Event (System φ) Input Unit)) (s : System φ)
    (i : Input) : Decidable ((machine P settings seed).may history s i) :=
  match i with
  | .copy _ order => inferInstanceAs (Decidable (Map.Ranges order s.shared.nodes))
  | .update _ | .select _ | .filter .. | .choose _ | .done .. => isTrue trivial

instance (P : Policy φ) (settings : Settings) (seed : UInt64)
    (history : List (Event (System φ) Input Unit)) (s : System φ)
    (i : Input) : Decidable ((steadyMachine P settings seed).may history s i) :=
  inferInstanceAs (Decidable ((machine P settings seed).may history s i ∧ steady P settings s i))

/-- Exact arithmetic. -/
def floats : Floats ℚ where
  ofInt n := (n : ℚ)
  add := (· + ·)
  mul := (· * ·)
  div := (· / ·)
  lt a b := decide (a < b)
  toDuration x := x.num.tdiv x.den
  ewmaWeight := 1 / 5
  ewmaRest := 4 / 5
  half := 1 / 2
  parse _ := none
  maximumAdvertisedCapacity := 4294967295

/-- All endpoints of the example are normal, with scheme `grpc`. -/
def urls : Urls := ⟨some, fun _ => some (bytesOf "grpc")⟩

/-- `MatchMetadata("zone", "eu")`. -/
def settings : Settings :=
  ⟨[fun _ n => (n.metadata.lookup (bytesOf "zone")).getD [] == bytesOf "eu"], []⟩

def operation : Operation := ⟨bytesOf "grpc", bytesOf "svc", bytesOf "m", .unary⟩

def metadata (zone : String) : Map Bytes Bytes :=
  (∅ : Map Bytes Bytes).insert (bytesOf "zone") (bytesOf zone)

/-- One instance in the zone. -/
def snapshot (revision zone : String) : Snapshot :=
  ⟨bytesOf "svc", bytesOf revision,
    [⟨bytesOf "a", bytesOf "svc", [bytesOf "grpc://a"], metadata zone⟩]⟩

/-- An update comes between the two critical sections. -/
def inputs (revision zone : String) : List Input :=
  [.update (snapshot "1" "eu"), .select operation, .copy 0 [bytesOf "a\x00grpc://a"],
    .filter 0 false (fun _ => true), .update (snapshot revision zone), .choose 0]

/-- The node that the first call has returned. -/
def returned (s : System φ) : Option Node := s.selects[0]?.bind fun c => c.phase.node?

def node (zone : String) : Node := ⟨bytesOf "a", bytesOf "svc", bytesOf "grpc://a", metadata zone⟩

def byFeedback : Policy (Feedback ℚ) := p2c floats urls [bytesOf "grpc"]

def byCapacity : Policy (Capacity ℚ) := capacityP2C floats urls
    [bytesOf "grpc"] (bytesOf "capacity")

def byWeight : Policy Weighted := weightedRoundRobin urls (bytesOf "grpc") (bytesOf "weight")

theorem evaluated : ((steadyMachine byFeedback settings 1).Allows [] (.new 1) (inputs "2" "eu") ∧
      returned ((steadyMachine byFeedback settings 1).final (.new 1) (inputs "2" "eu")) =
        some (node "eu")) ∧
    ((machine byFeedback settings 1).Allows [] (.new 1) (inputs "2" "us") ∧
      returned ((machine byFeedback settings 1).final (.new 1) (inputs "2" "us")) =
        some (node "us")) ∧
    ((machine byCapacity settings 1).Allows [] (.new 1) (inputs "2" "us") ∧
      returned ((machine byCapacity settings 1).final (.new 1) (inputs "2" "us")) =
        some (node "us")) ∧
    (machine byWeight settings 1).Allows [] (.new 1) (inputs "2" "us") ∧
      returned ((machine byWeight settings 1).final (.new 1) (inputs "2" "us")) =
        some (node "us") := by
  decide +kernel

theorem of_returned {s : System φ} {n : Node} (h : returned s = some n) :
    ∃ c ∈ s.selects, c.phase.node? = some n := by
  obtain ⟨c, hc, hn⟩ := Option.bind_eq_some_iff.mp h
  exact ⟨c, List.mem_of_getElem? hc, hn⟩

/-- The node that stays in its zone is accepted. -/
theorem kept : ∃ c ∈ ((steadyMachine byFeedback settings 1).final (.new 1)
    (inputs "2" "eu")).selects,
    c.phase.node? = some (node "eu") ∧ ∀ filter ∈ settings.filters,
      filter c.operation (node "eu") = true := by
  obtain ⟨⟨hallows, hreturned⟩, -⟩ := evaluated
  have hrun := Machine.Run.extend (M := steadyMachine byFeedback settings 1) (.init rfl) hallows
  obtain ⟨c, hc, hn⟩ := of_returned hreturned
  have hhonoured := filters_honoured floats urls [bytesOf "grpc"] (bytesOf "capacity")
    (bytesOf "grpc") (bytesOf "weight") settings
  exact ⟨c, hc, hn, hhonoured.1 1 _ _ hrun c hc _ hn⟩

/-- A run in which a call returns a node that a filter does not accept. -/
def Breaks (P : Policy φ) : Prop :=
  ∃ (history : List (Event (System φ) Input Unit)) (s : System φ),
    (machine P settings 1).Run history s ∧
    ∃ c ∈ s.selects, ∃ n, c.phase.node? = some n ∧ ∃ filter ∈ settings.filters,
      filter c.operation n = false

theorem breaks_of_returned {P : Policy φ}
    (hallows : (machine P settings 1).Allows [] (.new 1) (inputs "2" "us"))
    (hreturned : returned ((machine P settings 1).final (.new 1) (inputs "2" "us")) =
      some (node "us")) : Breaks P := by
  have hrun := Machine.Run.extend (M := machine P settings 1) (.init rfl) hallows
  obtain ⟨c, hc, hn⟩ := of_returned hreturned
  exact ⟨_, _, hrun, c, hc, node "us", hn, _, List.mem_singleton.mpr rfl, by decide +kernel⟩

/-- Every selector returns the node that has left its zone. -/
theorem left_zone : Breaks byFeedback ∧ Breaks byCapacity ∧ Breaks byWeight := by
  obtain ⟨-, ⟨h₁, h₁'⟩, ⟨h₂, h₂'⟩, h₃, h₃'⟩ := evaluated
  exact ⟨breaks_of_returned h₁ h₁', breaks_of_returned h₂ h₂', breaks_of_returned h₃ h₃'⟩

end Changed

end Keelith.Selector

import Keelith.Operation
import Keelith.Lib.Map
import Keelith.Lib.Run
import Mathlib.Data.List.Sort

/-!
# Selectors with feedback

`selector/selector.go`, `node.go`, `p2c.go`, `capacity_p2c.go` and `weighted.go`, and the snapshots
of `registry/registry.go`: the three selectors that keep a state for each node.

- **Nodes** (`nodesFromSnapshot`) have a key, which does not hold their metadata. A selector maps
  keys to state objects; `Update` keeps the object of a key and writes the new node into it. Objects
  are places in a list (`heap`), so that an object that `Update` has dropped is still there for the
  `Done` of an earlier call.
- **Policies** (`Policy`): what the selectors do differently. Each carries that `choose` takes a
  candidate and changes no node.
- **Steps**: `Select` is a copy of the nodes in one critical section, `eligibleNodes` outside, and
  the choice in another critical section. The order in which Go ranges over its map comes with the
  step.
- **Outside**: parsing of URLs (`Urls`), arithmetic on `float64` (`Floats`), observers and contexts.
-/

namespace Keelith.Selector

open Bytes

/-! ## Snapshots -/

/-- `registry.Instance`. -/
structure Instance where
  id : Bytes
  service : Bytes
  endpoints : List Bytes
  metadata : Map Bytes Bytes

/-- `registry.Snapshot`. -/
structure Snapshot where
  service : Bytes
  revision : Bytes
  instances : List Instance

/-- Package `net/url`, as the sources use it. -/
structure Urls where
  /-- `normalizeEndpoint`. -/
  normalize : Bytes → Option Bytes
  /-- The scheme of an endpoint that `url.Parse` accepts. -/
  scheme : Bytes → Option Bytes

def validName (name : Bytes) : Bool := trimmed name && name != [] && !hasControl name

/-- `Instance.Validate` succeeds. -/
def Instance.validate (urls : Urls) (i : Instance) : Bool :=
  validName i.id && validName i.service && i.endpoints != [] &&
    (match i.endpoints.mapM urls.normalize with
    | none => false
    | some normalized => decide normalized.Nodup) &&
    i.metadata.all fun key _ => !blank key

/-- `Snapshot.Validate` succeeds. -/
def Snapshot.validate (urls : Urls) (s : Snapshot) : Bool :=
  validName s.service && !blank s.revision &&
    (s.instances.all fun i => i.validate urls && i.service == s.service) &&
    decide (s.instances.map Instance.id).Nodup &&
      decide (s.instances.flatMap Instance.endpoints).Nodup

/-! ## Nodes -/

/-- `Node`. -/
structure Node where
  id : Bytes
  service : Bytes
  endpoint : Bytes
  metadata : Map Bytes Bytes
  deriving DecidableEq

def Node.key (n : Node) : Bytes := n.id ++ 0 :: n.endpoint

def newNode (i : Instance) (endpoint : Bytes) : Node := ⟨i.id, i.service, endpoint, i.metadata⟩

/-- `sort.Slice` by the key. -/
def sortNodes (nodes : List Node) : List Node := nodes.insertionSort fun a b => a.key ≤ b.key

def nodesFromSnapshot (urls : Urls) (s : Snapshot) (scheme : Bytes) : Option (List Node) :=
  if s.validate urls then
    some (sortNodes (s.instances.flatMap fun i =>
      (i.endpoints.filter fun endpoint => urls.scheme endpoint == some scheme).map (newNode i)))
  else none

def p2cNodesFromSnapshot (urls : Urls) (s : Snapshot) (schemes : List Bytes) : Option (List Node) :=
  (schemes.mapM (nodesFromSnapshot urls s)).map fun selected => sortNodes selected.flatten

/-! ## Eligible nodes -/

abbrev Filter := Operation → Node → Bool

/-- `settings`, without observers and seed. -/
structure Settings where
  filters : List Filter
  preferenceTiers : List (List (Bytes × Bytes))

/-- Every filter accepts the node. -/
def Settings.accepts (settings : Settings) (operation : Operation) (n : Node) : Bool :=
  settings.filters.all fun filter => filter operation n

def preferredNodes (nodes : List Node) : List (List (Bytes × Bytes)) → List Node
  | [] => nodes
  | tier :: tiers =>
    let preferred := nodes.filter fun n => tier.all fun entry =>
      (n.metadata.lookup entry.1).getD [] == entry.2
    if preferred = [] then preferredNodes nodes tiers else preferred

/-- `eligibleNodes`, or `none` for an error. -/
def eligibleNodes (settings : Settings) (canceled : Bool) (allow : Node → Bool)
    (operation : Operation) (nodes : List Node) : Option (List Node) :=
  if canceled then none
  else
    let filtered := nodes.filter fun n => settings.accepts operation n && allow n
    if filtered = [] then none else some (preferredNodes filtered settings.preferenceTiers)

/-! ## Selectors -/

/-- The state object of a node: the node and what the selector knows about it. -/
structure NodeState (φ : Type) where
  node : Node
  known : φ

/-- What the mutex of a selector protects. -/
structure Shared (φ : Type) where
  service : Bytes
  revision : Bytes
  nodes : Map Bytes Nat
  heap : List (NodeState φ)
  random : UInt64

namespace Shared

variable {φ : Type}

/-- What the object knows. -/
def known? (s : Shared φ) (index : Nat) : Option φ := s.heap[index]?.map NodeState.known

/-- The nodes of the objects. -/
def heapNodes (s : Shared φ) : List Node := s.heap.map NodeState.node

/-- The object learns something. -/
def learn (s : Shared φ) (index : Nat) (f : φ → φ) : Shared φ :=
  { s with heap := s.heap.modify index fun state => { state with known := f state.known } }

@[simp] theorem learn_nodes (s : Shared φ) (index : Nat) (f : φ → φ) :
    (s.learn index f).nodes = s.nodes := rfl

@[simp] theorem learn_heapNodes (s : Shared φ) (index : Nat) (f : φ → φ) :
    (s.learn index f).heapNodes = s.heapNodes := by
  unfold heapNodes learn
  refine List.ext_getElem? fun i => ?_
  rw [List.getElem?_map, List.getElem?_map, List.getElem?_modify]
  split <;> (cases s.heap[i]? <;> rfl)

/-- One pass of the loop of `Update`: the object of the key gets the node. -/
def install (old : Map Bytes Nat) (s : Shared φ) (n : Node) (renew : Option φ → φ) : Shared φ :=
  match old.lookup n.key with
  | none =>
    { s with nodes := s.nodes.insert n.key s.heap.length, heap := s.heap ++ [⟨n, renew none⟩] }
  | some index =>
    { s with
      nodes := s.nodes.insert n.key index
      heap := s.heap.modify index fun state => ⟨n, renew (some state.known)⟩ }

end Shared

/-- What a selector does in its own way. -/
structure Policy (φ : Type) where
  /-- The nodes of a snapshot. -/
  nodes : Snapshot → Option (List Node)
  /-- What `Update` reads from a node: what the object of the node will know. -/
  advertised : Node → Option (Option φ → φ)
  /-- What `Select` does with its copy of the nodes. -/
  arrange : List Node → List Node
  /-- The choice among the objects of the eligible nodes, and what it changes. -/
  choose : Shared φ → List Nat → Nat × Shared φ
  /-- `Done`: the latency, and whether the call failed. -/
  record : Int → Bool → φ → φ
  mem_arrange : ∀ nodes n, n ∈ arrange nodes ↔ n ∈ nodes
  choose_mem : ∀ s candidates, candidates ≠ [] → (choose s candidates).1 ∈ candidates
  choose_nodes : ∀ s candidates, (choose s candidates).2.nodes = s.nodes
  choose_heapNodes : ∀ s candidates, (choose s candidates).2.heapNodes = s.heapNodes

/-- The nodes that `Update` installs with what their objects will know, if it does not fail and the
revision is new. -/
def Policy.renewals {φ : Type} (P : Policy φ) (s : Shared φ) (snapshot : Snapshot) :
    Option (List (Node × (Option φ → φ))) := do
  let nodes ← P.nodes snapshot
  let known ← nodes.mapM P.advertised
  if s.service = snapshot.service ∧ s.revision =
    snapshot.revision then none else some (nodes.zip known)

def Policy.update {φ : Type} (P : Policy φ) (s : Shared φ) (snapshot : Snapshot) : Shared φ :=
  match P.renewals s snapshot with
  | none => s
  | some entries =>
    let next := entries.foldl (fun next entry => next.install s.nodes entry.1 entry.2)
      { s with nodes := ∅ }
    { next with service := snapshot.service, revision := snapshot.revision }

/-! ## Feedback -/

/-- The type `float64` and the operations that the selectors use; the constants are those of the
sources. -/
structure Floats (ρ : Type) where
  ofInt : Int → ρ
  add : ρ → ρ → ρ
  mul : ρ → ρ → ρ
  div : ρ → ρ → ρ
  lt : ρ → ρ → Bool
  /-- `time.Duration(x)`. -/
  toDuration : ρ → Int
  /-- `ewmaWeight`, which is 0.2. -/
  ewmaWeight : ρ
  /-- `1-ewmaWeight`. -/
  ewmaRest : ρ
  half : ρ
  /-- `strconv.ParseFloat` gives a finite number. -/
  parse : Bytes → Option ρ
  /-- `maximumAdvertisedCapacity`. -/
  maximumAdvertisedCapacity : ρ

/-- The feedback of `nodeState`: latencies in nanoseconds. -/
structure Feedback (ρ : Type) where
  ewmaLatency : Int
  inflight : Int
  failurePenalty : ρ
  deriving DecidableEq

section Feedback

variable {ρ : Type} (F : Floats ρ)

/-- The feedback of a new state. -/
def Feedback.new : Feedback ρ := ⟨0, 0, F.ofInt 0⟩

def score (f : Feedback ρ) : ρ :=
  let latency := if f.ewmaLatency ≤ 0 then 1000000 else f.ewmaLatency
  F.mul (F.mul (F.ofInt latency) (F.ofInt (f.inflight + 1))) (F.add (F.ofInt 1) f.failurePenalty)

/-- `P2C.record` and `CapacityP2C.record`. -/
def recordFeedback (latency : Int) (failed : Bool) (f : Feedback ρ) : Feedback ρ where
  inflight := if f.inflight > 0 then f.inflight - 1 else f.inflight
  ewmaLatency := if f.ewmaLatency ≤ 0 then latency
    else F.toDuration (F.add (F.mul F.ewmaRest (F.ofInt f.ewmaLatency))
      (F.mul F.ewmaWeight (F.ofInt latency)))
  failurePenalty :=
    if failed then F.add f.failurePenalty (F.ofInt 1) else F.mul f.failurePenalty F.half

end Feedback

def nextRandom (value : UInt64) : UInt64 :=
  let value := value ^^^ (value <<< 13)
  let value := value ^^^ (value >>> 7)
  value ^^^ (value <<< 17)

/-- The two candidates that `choose` compares, and the random state after it. -/
def sample (random : UInt64) (candidates : List Nat) : Nat × Nat × UInt64 :=
  let random := nextRandom random
  let first := candidates.getD (random.toNat % candidates.length) 0
  let random := nextRandom random
  let second := candidates.getD (random.toNat % candidates.length) 0
  let second := if first = second then (candidates.find? (· ≠ first)).getD second else second
  (first, second, random)

/-- `P2C.choose` and `CapacityP2C.choose`, with their score. -/
def chooseByScore {φ : Type} (better : Option φ → Option φ → Bool) (s : Shared φ) :
    List Nat → Nat × Shared φ
  | [only] => (only, s)
  | candidates =>
    let (first, second, random) := sample s.random candidates
    (if better (s.known? second) (s.known? first) then second else first, { s with random })

variable {candidates : List Nat}

theorem sample_mem {random : UInt64} (h : candidates ≠ []) :
    (sample random candidates).1 ∈ candidates ∧ (sample random candidates).2.1 ∈ candidates := by
  have hpos : 0 < candidates.length := List.length_pos_iff.mpr h
  have hget : ∀ r : UInt64, candidates.getD (r.toNat % candidates.length) 0 ∈ candidates := by
    intro r
    rw [List.getD_eq_getElem?_getD, List.getElem?_eq_getElem (Nat.mod_lt _ hpos)]
    exact List.getElem_mem _
  refine ⟨hget _, ?_⟩
  unfold sample
  dsimp only
  split
  next =>
    cases hf : candidates.find? _ with
    | none => exact hget _
    | some found => exact List.mem_of_find?_eq_some hf
  next => exact hget _

section ChooseByScore

variable {φ : Type} {better : Option φ → Option φ → Bool}

theorem chooseByScore_mem (s : Shared φ) (h : candidates ≠ []) :
    (chooseByScore better s candidates).1 ∈ candidates := by
  unfold chooseByScore
  split
  next => exact List.mem_singleton.mpr rfl
  next =>
    dsimp only
    split
    next => exact (sample_mem h).2
    next => exact (sample_mem h).1

@[simp] theorem chooseByScore_nodes (s : Shared φ) (candidates : List Nat) :
    (chooseByScore better s candidates).2.nodes = s.nodes := by
  unfold chooseByScore
  split <;> rfl

@[simp] theorem chooseByScore_heapNodes (s : Shared φ) (candidates : List Nat) :
    (chooseByScore better s candidates).2.heapNodes = s.heapNodes := by
  unfold chooseByScore
  split <;> rfl

end ChooseByScore

/-! ## The selectors -/

def p2c {ρ : Type} (F : Floats ρ) (urls : Urls) (schemes : List Bytes) : Policy (Feedback ρ) where
  nodes snapshot := p2cNodesFromSnapshot urls snapshot schemes
  advertised _ := some fun old => old.getD (.new F)
  arrange nodes := nodes
  choose s candidates :=
    let better (second first : Option (Feedback ρ)) : Bool :=
      F.lt (score F (second.getD (.new F))) (score F (first.getD (.new F)))
    let chosen := chooseByScore better s candidates
    (chosen.1, chosen.2.learn chosen.1 fun f => { f with inflight := f.inflight + 1 })
  record := recordFeedback F
  mem_arrange _ _ := Iff.rfl
  choose_mem s _ h := chooseByScore_mem s h
  choose_nodes s candidates := by simp
  choose_heapNodes s candidates := by simp

/-- What `CapacityP2C` knows about a node. -/
structure Capacity (ρ : Type) where
  capacity : ρ
  feedback : Feedback ρ
  deriving DecidableEq

def capacityScore {ρ : Type} (F : Floats ρ) (c : Capacity ρ) : ρ :=
  F.div (score F c.feedback) c.capacity

def advertisedCapacity {ρ : Type} (F : Floats ρ) (n : Node) (key : Bytes) : Option ρ :=
  match n.metadata.lookup key with
  | none => some (F.ofInt 1)
  | some raw =>
    if raw = [] || !trimmed raw then none
    else (F.parse raw).filter fun c => F.lt (F.ofInt 0) c && !F.lt F.maximumAdvertisedCapacity c

def capacityP2C {ρ : Type} (F : Floats ρ) (urls : Urls) (schemes : List Bytes)
    (capacityKey : Bytes) : Policy (Capacity ρ) where
  nodes snapshot := p2cNodesFromSnapshot urls snapshot schemes
  advertised n := (advertisedCapacity F n capacityKey).map fun capacity old =>
    ⟨capacity, (old.map Capacity.feedback).getD (.new F)⟩
  arrange nodes := nodes
  choose s candidates :=
    let scoreOf (c : Option (Capacity ρ)) : ρ := capacityScore F (c.getD ⟨F.ofInt 1, .new F⟩)
    let chosen :=
      chooseByScore (fun second first => F.lt (scoreOf second) (scoreOf first)) s candidates
    (chosen.1, chosen.2.learn chosen.1 fun c =>
      { c with feedback := { c.feedback with inflight := c.feedback.inflight + 1 } })
  record latency failed c := { c with feedback := recordFeedback F latency failed c.feedback }
  mem_arrange _ _ := Iff.rfl
  choose_mem s _ h := chooseByScore_mem s h
  choose_nodes s candidates := by simp
  choose_heapNodes s candidates := by simp

/-- What `WeightedRoundRobin` knows about a node. -/
structure Weighted where
  weight : Int
  current : Int
  deriving DecidableEq

def maximumNodeWeight : Int := 1000000

def nodeWeight (n : Node) (key : Bytes) : Option Int :=
  match n.metadata.lookup key with
  | none => some 1
  | some raw => (parseInt raw.trimSpace).filter fun value =>
    decide (0 < value ∧ value ≤ maximumNodeWeight)

/-- The object is better than the chosen one. -/
def Shared.heavier (s : Shared Weighted) (index : Nat) : Option Nat → Bool
  | none => true
  | some chosen =>
    let current (index : Nat) : Int := ((s.known? index).map Weighted.current).getD 0
    let key (index : Nat) : Bytes := ((s.heapNodes[index]?).map Node.key).getD []
    decide (current index > current chosen) || (current index == current chosen &&
      decide (key index < key chosen))

/-- The loop of `WeightedRoundRobin.Select` over the candidates: the chosen object, the sum of the
weights and the state. -/
def weigh (s : Shared Weighted) (chosen : Option Nat) (total : Int) :
    List Nat → Option Nat × Int × Shared Weighted
  | [] => (chosen, total, s)
  | index :: rest =>
    let weight := ((s.known? index).map Weighted.weight).getD 0
    let s := s.learn index fun w => { w with current := w.current + w.weight }
    weigh s (if s.heavier index chosen then some index else chosen) (total + weight) rest

theorem weigh_nodes (s : Shared Weighted) (chosen : Option Nat) (total : Int)
    (candidates : List Nat) : (weigh s chosen total candidates).2.2.nodes = s.nodes := by
  induction candidates generalizing s chosen total with
  | nil => rfl
  | cons index rest ih => rw [weigh, ih, Shared.learn_nodes]

theorem weigh_heapNodes (s : Shared Weighted) (chosen : Option Nat) (total : Int)
    (candidates : List Nat) : (weigh s chosen total candidates).2.2.heapNodes = s.heapNodes := by
  induction candidates generalizing s chosen total with
  | nil => rfl
  | cons index rest ih => rw [weigh, ih, Shared.learn_heapNodes]

/-- The loop keeps what was chosen before, or takes a candidate. -/
theorem weigh_chosen (s : Shared Weighted) (chosen : Option Nat) (total : Int)
    (candidates : List Nat) : (weigh s chosen total candidates).1 = chosen ∨
      ∃ index ∈ candidates, (weigh s chosen total candidates).1 = some index := by
  induction candidates generalizing s chosen total with
  | nil => exact .inl rfl
  | cons index rest ih =>
    rw [weigh]
    rcases ih (s.learn index fun w => { w with current := w.current + w.weight }) _ _ with
      h | ⟨i, hi, h⟩
    · rw [h]
      split
      next => exact .inr ⟨index, List.mem_cons_self, rfl⟩
      next => exact .inl rfl
    · exact .inr ⟨i, List.mem_cons_of_mem _ hi, h⟩

/-- The loop takes a candidate if there is one. -/
theorem weigh_mem (s : Shared Weighted) (total : Int) (h : candidates ≠ []) :
    ∃ index ∈ candidates, (weigh s none total candidates).1 = some index := by
  cases candidates with
  | nil => exact absurd rfl h
  | cons index rest =>
    rcases weigh_chosen (s.learn index fun w => { w with current := w.current + w.weight })
      (some index) _ rest with
      h | ⟨i, hi, h⟩
    · exact ⟨index, List.mem_cons_self, h⟩
    · exact ⟨i, List.mem_cons_of_mem _ hi, h⟩

def weightedRoundRobin (urls : Urls) (scheme weightKey : Bytes) : Policy Weighted where
  nodes snapshot := nodesFromSnapshot urls snapshot scheme
  advertised n := (nodeWeight n weightKey).map fun weight old =>
    ⟨weight, (old.map Weighted.current).getD 0⟩
  arrange := sortNodes
  choose s candidates :=
    let (chosen, total, s) := weigh s none 0 candidates
    (chosen.getD 0, s.learn (chosen.getD 0) fun w => { w with current := w.current - total })
  record _ _ w := w
  mem_arrange nodes n := List.mem_insertionSort _
  choose_mem s candidates h := by
    obtain ⟨index, hmem, hchosen⟩ := weigh_mem s 0 h
    dsimp only
    rw [hchosen]
    exact hmem
  choose_nodes s candidates := by rw [Shared.learn_nodes, weigh_nodes]
  choose_heapNodes s candidates := by rw [Shared.learn_heapNodes, weigh_heapNodes]

/-! ## Interleavings -/

/-- Where a call of `Select` is. -/
inductive SelectPhase where
  | called
  /-- It has copied the service and the nodes. -/
  | copied (service : Bytes) (nodes : List Node)
  | filtered (eligible : List Node)
  /-- It has returned the node; `Done` will use the object. -/
  | returned (node : Node) (index : Nat)
  /-- `Done` was called. -/
  | done (node : Node)
  | failed

/-- A call of `Select`. -/
structure SelectCall where
  operation : Operation
  phase : SelectPhase

/-- A selector and its callers. -/
structure System (φ : Type) where
  shared : Shared φ
  selects : List SelectCall

/-- What may happen next. -/
inductive Input where
  | update (snapshot : Snapshot)
  | select (operation : Operation)
  /-- The first critical section of `Select`; Go ranges over its map in this order. -/
  | copy (call : Nat) (order : List Bytes)
  /-- The check of the service and `eligibleNodes`, with what the observers allow. -/
  | filter (call : Nat) (canceled : Bool) (allow : Node → Bool)
  /-- The second critical section. -/
  | choose (call : Nat)
  | done (call : Nat) (latency : Int) (failed : Bool)

namespace System

variable {φ : Type} (P : Policy φ) (settings : Settings)

/-- A new selector. -/
def new (seed : UInt64) : System φ := ⟨⟨[], [], ∅, [], seed⟩, []⟩

/-- The nodes of the objects of the keys. -/
def nodesOf (s : Shared φ) (order : List Bytes) : List Node :=
  order.filterMap fun key => (s.nodes.lookup key).bind fun index => s.heapNodes[index]?

/-- `Select` after `eligibleNodes`: the chosen node and its object. -/
def chooseNode (s : Shared φ) (eligible : List Node) : SelectPhase × Shared φ :=
  let candidates := eligible.filterMap fun n => s.nodes.lookup n.key
  if candidates = [] then (.failed, s)
  else
    let chosen := P.choose s candidates
    match chosen.2.heapNodes[chosen.1]? with
    | none => (.failed, chosen.2)
    | some node => (.returned node chosen.1, chosen.2)

/-- A step of a call of `Select`. -/
def stepSelect (s : System φ) (call : SelectCall) : Input → SelectPhase × Shared φ
  | .copy _ order =>
    match call.phase with
    | .called => (.copied s.shared.service (P.arrange (nodesOf s.shared order)), s.shared)
    | phase => (phase, s.shared)
  | .filter _ canceled allow =>
    match call.phase with
    | .copied service nodes =>
      if service ≠ [] ∧ call.operation.service ≠ service then (.failed, s.shared)
      else
        match eligibleNodes settings canceled allow call.operation nodes with
        | none => (.failed, s.shared)
        | some eligible => (.filtered eligible, s.shared)
    | phase => (phase, s.shared)
  | .choose _ =>
    match call.phase with
    | .filtered eligible => chooseNode P s.shared eligible
    | phase => (phase, s.shared)
  | .done _ latency failed =>
    match call.phase with
    | .returned node index => (.done node, s.shared.learn index (P.record latency failed))
    | phase => (phase, s.shared)
  | _ => (call.phase, s.shared)

/-- The call moves. -/
def moveSelect (s : System φ) (index : Nat) (i : Input) : System φ :=
  match s.selects[index]? with
  | none => s
  | some call =>
    let moved := stepSelect P settings s call i
    ⟨moved.2, s.selects.set index { call with phase := moved.1 }⟩

/-- One input. -/
def exec (s : System φ) (i : Input) : Unit × System φ :=
  ((), match i with
    | .update snapshot => { s with shared := P.update s.shared snapshot }
    | .select operation => { s with selects := s.selects ++ [⟨operation, .called⟩] }
    | .copy call _ | .filter call _ _ | .choose call | .done call _ _ =>
      moveSelect P settings s call i)

/-- The machine. -/
def machine (seed : UInt64) : Machine (System φ) Input Unit where
  init s := s = .new seed
  exec := exec P settings
  may _ s i := match i with
    | .copy _ order => Map.Ranges order s.shared.nodes
    | _ => True

end System

end Keelith.Selector

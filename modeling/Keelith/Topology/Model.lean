import Keelith.Lib.Json
import Keelith.Lib.Map
import Keelith.Topology.Traffic

/-!
# Placement plans

`programmable/topology/model.go` and `validate.go`: a plan, and the snapshot that `Activate` makes
of it.

- **A plan** (`Plan`): `Placements` is a set, `Components` and `Dependencies` are Go maps. `traffic`
  is `none` for a nil table.
- **A snapshot** (`Snapshot`): its fields are not exported, so a value is the zero value or what
  `Activate` returns.
- **The hash** (`canonicalHash`): SHA-256 of the JSON text of the sorted plan (`canonicalPlan`).

The loops of `validateSnapshot` range over maps: the entry that an error names depends on the order,
so `PlanError` tells the loop only.

`epoch_eq_of_hash_eq`: among plans without a collision, the hash determines the epoch.
-/

namespace Keelith.Topology

abbrev ComponentID := String

abbrev PlacementID := String

/-- `BindingMode`; `other` is a value outside the declared constants. -/
inductive BindingMode where
  | auto
  | «local»
  | remote
  | other (text : String)
  deriving DecidableEq

/-- The string of a mode. -/
def BindingMode.text : BindingMode → String
  | .auto => "AUTO"
  | .local => "LOCAL"
  | .remote => "REMOTE"
  | .other text => text

/-- `Plan`. -/
structure Plan where
  epoch : UInt64
  placements : Finset PlacementID
  components : Map ComponentID PlacementID
  dependencies : Map ComponentID (Map ComponentID BindingMode)
  traffic : Option (List EpochWeight)

/-- `Snapshot`. -/
structure Snapshot where
  epoch : UInt64
  hash : String
  placements : Finset PlacementID
  components : Map ComponentID PlacementID
  dependencies : Map ComponentID (Map ComponentID BindingMode)
  traffic : Option (List EpochWeight)

/-- `Snapshot.Traffic`: a snapshot without a table routes all calls to its own epoch. -/
def Snapshot.effectiveTraffic (snapshot : Snapshot) : List EpochWeight :=
  if snapshot.epoch = 0 then []
  else snapshot.traffic.getD [⟨snapshot.epoch, UInt16.ofNat totalBasisPoints⟩]

/-- `ErrInvalidPlan`, with the check that failed. -/
inductive PlanError where
  | epochNotPositive
  | noPlacements
  | noComponents
  | placement
  | component
  | dependency
  | traffic (err : TrafficError)
  | newerTraffic (epoch plan : UInt64)
  | noCurrentTraffic (plan : UInt64)
  deriving DecidableEq

def maxIdentityBytes : Nat := 512

def validIdentity (value : String) : Bool :=
  value != "" && value.utf8ByteSize ≤ maxIdentityBytes && trimSpace value == value &&
    value.toList.all fun r => !isControl r

/-! ## Validation -/

def clonePlan (plan : Plan) : Snapshot where
  epoch := plan.epoch
  hash := ""
  placements := plan.placements
  components := plan.components
  dependencies := plan.dependencies
  traffic := plan.traffic.map sortWeights

/-- The body of the loop over the targets of a component. -/
def validDependency (components : Map ComponentID PlacementID) (source target : ComponentID)
    (mode : BindingMode) : Bool :=
  match components.lookup target with
  | none => false
  | some placement =>
    match mode with
    | .auto | .remote => true
    | .local => components.lookup source == some placement
    | .other _ => false

/-- The table of a plan: no newer epoch, and a positive weight for its own. -/
def validateTraffic (epoch : UInt64) (traffic : List EpochWeight) : Except PlanError Unit :=
  match newTrafficSelector traffic with
  | .error err => .error (.traffic err)
  | .ok _ =>
    match traffic.find? fun weight => epoch < weight.epoch with
    | some weight => .error (.newerTraffic weight.epoch epoch)
    | none =>
      match traffic.reverse.find? fun weight => weight.epoch = epoch with
      | some weight => if weight.basisPoints = 0 then .error (.noCurrentTraffic epoch) else .ok ()
      | none => .error (.noCurrentTraffic epoch)

def validateSnapshot (snapshot : Snapshot) : Except PlanError Unit :=
  if snapshot.epoch = 0 then .error .epochNotPositive
  else if snapshot.placements.card = 0 then .error .noPlacements
  else if snapshot.components.size = 0 then .error .noComponents
  else if ¬ ∀ placement ∈ snapshot.placements, validIdentity placement = true then .error .placement
  else if !snapshot.components.all fun component placement =>
      validIdentity component && decide (placement ∈ snapshot.placements) then .error .component
  else if !snapshot.dependencies.all fun source targets =>
      decide (source ∈ snapshot.components) &&
        targets.all (validDependency snapshot.components source) then .error .dependency
  else match snapshot.traffic with
    | none => .ok ()
    | some traffic => validateTraffic snapshot.epoch traffic

/-! ## The canonical hash -/

/-- The JSON text of a slice: nil if nothing was appended to it. -/
def jsonSlice (elements : List String) : String :=
  if elements.isEmpty then "null" else "[" ++ jsonElements elements ++ "]"

def canonicalComponent (id : ComponentID) (placement : PlacementID) : String :=
  "\x7b\"id\":" ++ jsonString id ++ ",\"placement\":" ++ jsonString placement ++ "\x7d"

def canonicalDependency (source target : ComponentID) (mode : BindingMode) : String :=
  "\x7b\"source\":" ++ jsonString source ++ ",\"target\":" ++ jsonString target ++
    ",\"mode\":" ++ jsonString mode.text ++ "\x7d"

def canonicalTraffic (weight : EpochWeight) : String :=
  "\x7b\"epoch\":" ++ toString weight.epoch.toNat ++
    ",\"basisPoints\":" ++ toString weight.basisPoints.toNat ++ "\x7d"

/-- The placements, components and dependencies of `canonicalPlan`. -/
def canonicalBody (snapshot : Snapshot) : String :=
  "\"placements\":" ++ jsonSlice (snapshot.placements.sort.map jsonString) ++
  ",\"components\":" ++ jsonSlice (snapshot.components.keys.sort.map fun id =>
    canonicalComponent id ((snapshot.components.lookup id).getD "")) ++
  ",\"dependencies\":" ++ jsonSlice (snapshot.dependencies.keys.sort.flatMap fun source =>
    let targets := (snapshot.dependencies.lookup source).getD ∅
    targets.keys.sort.map fun target =>
      canonicalDependency source target ((targets.lookup target).getD .auto)) ++
  -- an empty table is left out
  match snapshot.traffic with
  | some (weight :: rest) =>
    ",\"traffic\":[" ++ jsonElements ((sortWeights (weight :: rest)).map canonicalTraffic) ++ "]"
  | _ => ""

/-- The JSON text of `canonicalPlan`. -/
def canonicalPlan (snapshot : Snapshot) : String :=
  "\x7b\"epoch\":" ++ toString snapshot.epoch.toNat ++ "," ++ canonicalBody snapshot ++ "\x7d"

def canonicalHash (snapshot : Snapshot) : String :=
  "sha256:" ++ hexEncode (sha256 (bytesOf (canonicalPlan snapshot)))

def activate (plan : Plan) : Except PlanError Snapshot :=
  let snapshot := clonePlan plan
  match validateSnapshot snapshot with
  | .error err => .error err
  | .ok () => .ok { snapshot with hash := canonicalHash snapshot }

/-! ## Activated snapshots -/

variable {plan : Plan} {snapshot : Snapshot} {first second : Snapshot}

theorem activate_ok (h : activate plan = .ok snapshot) :
    snapshot = { clonePlan plan with hash := canonicalHash (clonePlan plan) } ∧ plan.epoch ≠ 0 := by
  unfold activate at h
  dsimp only at h
  split at h
  · cases h
  next hvalid =>
    refine ⟨(Except.ok.inj h).symm, fun hzero => ?_⟩
    have hepoch : (clonePlan plan).epoch = 0 := hzero
    rw [validateSnapshot, if_pos hepoch] at hvalid
    cases hvalid

theorem activate_of_valid (h : validateSnapshot (clonePlan plan) = .ok ()) :
    activate plan = .ok { clonePlan plan with hash := canonicalHash (clonePlan plan) } := by
  simp only [activate, h]

theorem activate_epoch_ne (h : activate plan = .ok snapshot) : snapshot.epoch ≠ 0 := by
  obtain ⟨rfl, hepoch⟩ := activate_ok h
  exact hepoch

/-- The text that is hashed begins with the epoch. -/
theorem canonicalPlan_epoch (h : canonicalPlan first = canonicalPlan second) :
    first.epoch = second.epoch := by
  have htext := congrArg String.toList h
  simp only [canonicalPlan, String.toList_append, List.append_assoc,
    List.append_cancel_left_eq] at htext
  exact UInt64.toNat_inj.mp (digits_delimited (c := ',') (by decide) htext).1

/-- The message that is hashed for a plan. -/
def Plan.message (plan : Plan) : List UInt8 := bytesOf (canonicalPlan (clonePlan plan))

/-- Among plans without a collision, the hash says which message was hashed. -/
theorem hash_eq_iff {S : Set (List UInt8)} (hS : CollisionFree S) {p q : Plan}
    (hfirst : activate p = .ok first) (hsecond : activate q = .ok second)
    (hp : p.message ∈ S) (hq : q.message ∈ S) : first.hash = second.hash ↔
    p.message = q.message := by
  obtain ⟨rfl, -⟩ := activate_ok hfirst
  obtain ⟨rfl, -⟩ := activate_ok hsecond
  refine ⟨fun hhash => hS hp hq (hexEncode_inj ?_), fun hmessage => ?_⟩
  · exact String.append_right_inj "sha256:" |>.mp hhash
  · exact congrArg (fun message => "sha256:" ++ hexEncode (sha256 message)) hmessage

/-- **The hash determines the epoch**, among plans without a collision. -/
theorem epoch_eq_of_hash_eq {S : Set (List UInt8)} (hS : CollisionFree S) {p q : Plan}
    (hfirst : activate p = .ok first) (hsecond : activate q = .ok second)
    (hp : p.message ∈ S) (hq : q.message ∈ S) (hhash : first.hash = second.hash) :
    first.epoch = second.epoch := by
  have hmessage := (hash_eq_iff hS hfirst hsecond hp hq).mp hhash
  obtain ⟨rfl, -⟩ := activate_ok hfirst
  obtain ⟨rfl, -⟩ := activate_ok hsecond
  exact canonicalPlan_epoch (bytesOf_inj hmessage)

end Keelith.Topology

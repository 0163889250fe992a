import Keelith.Topology.Model

/-!
# What a plan is

The hash of a snapshot (`validate.go`) and the routes that it gives (`router.go`, `bindings.go`).

- **The same plan** (`Plan.Same`): same epoch, placements and components, the same edges with their
  modes (`edge`; a component without targets has none), and the same table up to order.
- **The text** that is hashed says all of this and no more (`message_eq_iff`): it is made of lists
  sorted by key, and JSON texts say where they end.
- **Routes** (`Snapshot.resolve`, `Snapshot.bindings`) read nothing else. `Bindings` ranges over
  maps and sorts; the model goes through the sorted edges, which differs only in the pair that an
  error names.
-/

namespace Keelith.Topology

/-! ## Routes -/

/-- The mode of a dependency. -/
def edge (dependencies : Map ComponentID (Map ComponentID BindingMode))
    (source target : ComponentID) : Option BindingMode :=
  (dependencies.lookup source).bind fun targets => targets.lookup target

/-- The dependencies, sorted by source and target. -/
def edges (dependencies : Map ComponentID (Map ComponentID BindingMode)) :
    List (ComponentID × ComponentID × BindingMode) :=
  dependencies.keys.sort.flatMap fun source =>
    let targets := (dependencies.lookup source).getD ∅
    targets.keys.sort.map fun target => (source, target, (targets.lookup target).getD .auto)

/-- `Binding`. -/
structure Binding where
  source : ComponentID
  target : ComponentID
  sourcePlacement : PlacementID
  targetPlacement : PlacementID
  mode : BindingMode
  epoch : UInt64
  planHash : String

/-- `ErrInvalidPlan` and `ErrUnboundDependency`. -/
inductive RouteError where
  | notActivated
  | unbound (source target : ComponentID)

def Snapshot.resolve (snapshot : Snapshot) (source target : ComponentID) :
    Except RouteError Binding :=
  if snapshot.epoch = 0 ∨ snapshot.hash = "" then .error .notActivated
  else match snapshot.components.lookup source, snapshot.components.lookup target,
    edge snapshot.dependencies source target with
    | some sourcePlacement, some targetPlacement, some constraint =>
      let mode := if constraint = .auto then if sourcePlacement =
        targetPlacement then .local else .remote else constraint
      .ok ⟨source, target, sourcePlacement, targetPlacement, mode, snapshot.epoch, snapshot.hash⟩
    | _, _, _ => .error (.unbound source target)

def Snapshot.bindings (snapshot : Snapshot) : Except RouteError (List Binding) :=
  if snapshot.epoch = 0 ∨ snapshot.hash = "" then .error .notActivated
  else (edges snapshot.dependencies).mapM fun e => snapshot.resolve e.1 e.2.1

/-! ## The same plan -/

/-- Two plans say the same. -/
structure Plan.Same (p q : Plan) : Prop where
  epoch : p.epoch = q.epoch
  placements : p.placements = q.placements
  components : p.components = q.components
  edges : ∀ source target, edge p.dependencies source target = edge q.dependencies source target
  traffic : Option.Rel List.Perm p.traffic q.traffic

section Edges

variable {first second : Map ComponentID (Map ComponentID BindingMode)}

theorem lookup_targets (dependencies : Map ComponentID (Map ComponentID BindingMode))
    (source target : ComponentID) :
    ((dependencies.lookup source).getD ∅).lookup target = edge dependencies source target := by
  unfold edge
  cases dependencies.lookup source <;> simp

variable {source target : ComponentID}

theorem mem_edges {mode : BindingMode} :
    (source, target, mode) ∈ edges first ↔ edge first source target = some mode := by
  simp only [edges, List.mem_flatMap, List.mem_map, Finset.mem_sort, Prod.mk.injEq, lookup_targets]
  constructor
  · rintro ⟨_, -, t, ht, rfl, rfl, rfl⟩
    obtain ⟨found, hfound⟩ := Finmap.mem_iff.mp ht
    rw [lookup_targets] at hfound
    rw [hfound, Option.getD_some]
  · intro h
    have hsource : source ∈ first := Finmap.mem_iff.mpr (by
      obtain ⟨targets, htargets, -⟩ := Option.bind_eq_some_iff.mp h
      exact ⟨targets, htargets⟩)
    refine ⟨source, hsource, target, Finmap.mem_iff.mpr ⟨mode,
      (lookup_targets first source target).trans h⟩, rfl, rfl, ?_⟩
    rw [h, Option.getD_some]

/-- Keys for which nothing is written do not matter. -/
theorem flatMap_sort_congr {α : Type} {A B : Finset String} {f : String → List α}
    (h : ∀ a, f a ≠ [] → (a ∈ A ↔ a ∈ B)) : A.sort.flatMap f = B.sort.flatMap f := by
  have hkept (C : Finset String) :
      C.sort.flatMap f = (C.sort.filter fun a => !(f a).isEmpty).flatMap f := by
    induction C.sort with
    | nil => rfl
    | cons a l ih => cases hf : f a <;> simp [hf, ih]
  -- what is kept is sorted, and the same for both
  have hsort (C : Finset String) : (C.sort.filter fun a => !(f a).isEmpty) =
      (C.sort.filter fun a => !(f a).isEmpty).toFinset.sort :=
    ((List.toFinset_sort (· ≤ ·) ((C.sort_nodup _).filter _)).mpr
      ((C.pairwise_sort _).filter _)).symm
  rw [hkept A, hkept B, hsort A, hsort B]
  congr 2
  ext a
  simp only [List.mem_toFinset, List.mem_filter, Finset.mem_sort, Bool.not_eq_true',
    List.isEmpty_eq_false_iff]
  exact and_congr_left fun hf => h a hf

theorem edges_congr (h : ∀ source target, edge first source target = edge second source target) :
    edges first = edges second := by
  have htargets (source : ComponentID) : (first.lookup source).getD ∅ =
    (second.lookup source).getD ∅ :=
    Finmap.ext_lookup fun target => by rw [lookup_targets, lookup_targets, h]
  have hmem {m : Map ComponentID (Map ComponentID BindingMode)} {source : ComponentID}
    (hm : source ∉ m) :
      (m.lookup source).getD ∅ = ∅ := by rw [Finmap.lookup_eq_none.mpr hm, Option.getD_none]
  unfold edges
  simp only [htargets]
  refine flatMap_sort_congr fun source hne => ?_
  have hsome : (second.lookup source).getD ∅ ≠ ∅ := fun hempty => hne (by simp [hempty])
  exact iff_of_true (not_not.mp fun hnot => hsome ((htargets source).symm.trans (hmem hnot)))
    (not_not.mp fun hnot => hsome (hmem hnot))

end Edges

/-! ## Accepted plans -/

/-- What `Activate` has checked of the modes and of the table. -/
theorem activate_checked {plan : Plan} {snapshot : Snapshot} (h : activate plan = .ok snapshot) :
    (∀ source target mode, edge plan.dependencies source target = some mode →
      ∀ text, mode ≠ .other text) ∧
      ∀ table, plan.traffic = some table → table ≠ [] ∧ table.length ≤ maximumTrafficEpochs ∧
        (sortWeights table).Pairwise fun first second => first.epoch < second.epoch := by
  unfold activate at h
  dsimp only at h
  split at h
  · cases h
  next hvalid =>
    unfold validateSnapshot at hvalid
    simp only [guard_eq_ok, Bool.not_eq_true', Bool.not_eq_false] at hvalid
    obtain ⟨-, -, -, -, -, hdependencies, htraffic⟩ := hvalid
    constructor
    · rintro source target mode hedge text rfl
      obtain ⟨targets, hsource, htarget⟩ := Option.bind_eq_some_iff.mp hedge
      have hall := Map.all_iff.mp hdependencies source targets hsource
      simp only [Bool.and_eq_true] at hall
      have hdependency := Map.all_iff.mp hall.2 target _ htarget
      unfold validDependency at hdependency
      split at hdependency
      · cases hdependency
      · cases hdependency
    · intro table htable
      simp only [clonePlan, htable, Option.map_some, validateTraffic] at htraffic
      split at htraffic
      · cases htraffic
      next selector hselector =>
        unfold newTrafficSelector at hselector
        split at hselector
        · cases hselector
        next hlength =>
          dsimp only at hselector
          split at hselector
          next hcheck =>
            have hsorted := List.pairwise_insertionSort (fun a b : EpochWeight =>
              a.epoch ≤ b.epoch) table
            have hagain : sortWeights (sortWeights table) = sortWeights table :=
              hsorted.insertionSort_eq
            rw [hagain] at hcheck
            rw [sortWeights, List.length_insertionSort] at hlength
            refine ⟨?_, Nat.not_lt.mp fun h => hlength (.inr h), checkWeights_sorted hcheck hsorted⟩
            rintro rfl
            exact hlength (.inl rfl)
          · cases hselector

/-! ## The text of a plan -/

/-- The text of a dependency, with that of its mode. -/
def dependencyText (e : ComponentID × ComponentID × String) : String :=
  "\x7b\"source\":" ++ jsonString e.1 ++ ",\"target\":" ++ jsonString e.2.1 ++ ",\"mode\":" ++
    jsonString e.2.2 ++ "\x7d"

theorem component_delimited : Delimited fun e : ComponentID × PlacementID =>
    canonicalComponent e.1 e.2 := by
  rintro ⟨id, placement⟩ ⟨id', placement'⟩ x y h
  simp only [canonicalComponent, String.toList_append, List.append_assoc,
    List.append_cancel_left_eq] at h
  obtain ⟨rfl, hplacement⟩ := jsonString_delimited h
  rw [List.append_cancel_left_eq] at hplacement
  obtain ⟨rfl, hend⟩ := jsonString_delimited hplacement
  exact ⟨rfl, List.append_cancel_left hend⟩

theorem dependency_delimited : Delimited dependencyText := by
  rintro ⟨source, target, mode⟩ ⟨source', target', mode'⟩ x y h
  simp only [dependencyText, String.toList_append, List.append_assoc,
    List.append_cancel_left_eq] at h
  obtain ⟨rfl, htarget⟩ := jsonString_delimited h
  rw [List.append_cancel_left_eq] at htarget
  obtain ⟨rfl, hmode⟩ := jsonString_delimited htarget
  rw [List.append_cancel_left_eq] at hmode
  obtain ⟨rfl, hend⟩ := jsonString_delimited hmode
  exact ⟨rfl, List.append_cancel_left hend⟩

theorem traffic_delimited : Delimited canonicalTraffic := by
  rintro ⟨epoch, points⟩ ⟨epoch', points'⟩ x y h
  simp only [canonicalTraffic, String.toList_append, List.append_assoc,
    List.append_cancel_left_eq] at h
  obtain ⟨hepoch, hpoints⟩ := digits_delimited (c := ',') (by decide) h
  have hvalue := List.append_cancel_left (show "\"basisPoints\":".toList ++ _ =
    "\"basisPoints\":".toList ++ _ from hpoints)
  obtain ⟨hpoints, hend⟩ := digits_delimited (c := '\x7d') (by decide) hvalue
  exact ⟨by rw [UInt64.toNat_inj.mp hepoch, UInt16.toNat_inj.mp hpoints], hend⟩

/-- A slice says where it ends. -/
theorem slice_delimited {α : Type} {write : α → String} (hwrite : Delimited write) :
    Delimited fun l : List α => jsonSlice (l.map write) := by
  have hcons (a : α) (l : List α) (x : List Char) : (jsonSlice ((a :: l).map write)).toList ++ x =
      '[' :: ((jsonElements ((a :: l).map write)).toList ++ ']' :: x) := by
    simp [jsonSlice]
  have hnil (x : List Char) : (jsonSlice (([] : List α).map write)).toList ++ x =
      'n' :: ("ull".toList ++ x) := by
    simp [jsonSlice]
  intro l m x y h
  cases l with
  | nil =>
    cases m with
    | nil => exact ⟨rfl, List.append_cancel_left h⟩
    | cons b m =>
      rw [hnil, hcons] at h
      exact absurd (List.cons.inj h).1 (by decide)
  | cons a l =>
    rw [hcons] at h
    cases m with
    | nil =>
      rw [hnil] at h
      exact absurd (List.cons.inj h).1 (by decide)
    | cons b m =>
      rw [hcons] at h
      exact elements_delimited hwrite (List.cons.inj h).2

/-- The components, sorted. -/
def pairs (components : Map ComponentID PlacementID) : List (ComponentID × PlacementID) :=
  components.keys.sort.map fun id => (id, (components.lookup id).getD "")

/-- The dependencies with the texts of their modes. -/
def edgeTexts (dependencies : Map ComponentID (Map ComponentID BindingMode)) :
    List (ComponentID × ComponentID × String) :=
  (edges dependencies).map fun e => (e.1, e.2.1, e.2.2.text)

/-- The text of a table; none of an empty one. -/
def trafficText : Option (List EpochWeight) → String
  | some (weight :: rest) =>
    ",\"traffic\":[" ++ jsonElements ((sortWeights (weight :: rest)).map canonicalTraffic) ++ "]"
  | _ => ""

theorem canonicalBody_eq (snapshot : Snapshot) : canonicalBody snapshot =
    "\"placements\":" ++ jsonSlice (snapshot.placements.sort.map jsonString) ++
    ",\"components\":" ++ jsonSlice ((pairs snapshot.components).map fun e =>
      canonicalComponent e.1 e.2) ++
    ",\"dependencies\":" ++ jsonSlice ((edgeTexts snapshot.dependencies).map dependencyText) ++
    trafficText snapshot.traffic := by
  have hcomponents : (pairs snapshot.components).map (fun e => canonicalComponent e.1 e.2) =
      snapshot.components.keys.sort.map fun id =>
        canonicalComponent id ((snapshot.components.lookup id).getD "") := by
    rw [pairs, List.map_map]
    rfl
  have hedges : (edgeTexts snapshot.dependencies).map dependencyText =
      snapshot.dependencies.keys.sort.flatMap fun source =>
        ((snapshot.dependencies.lookup source).getD ∅).keys.sort.map fun target =>
          canonicalDependency source target
            ((((snapshot.dependencies.lookup source).getD ∅).lookup target).getD .auto) := by
    rw [edgeTexts, edges, List.map_map, List.map_flatMap]
    refine List.flatMap_congr fun source _ => ?_
    rw [List.map_map]
    exact List.map_congr_left fun target _ => rfl
  rw [hcomponents, hedges]
  unfold canonicalBody trafficText
  rcases snapshot.traffic with _ | _ | ⟨weight, rest⟩ <;> rfl

theorem mem_pairs {components : Map ComponentID PlacementID} {id : ComponentID}
    {placement : PlacementID} :
    (id, placement) ∈ pairs components ↔ components.lookup id = some placement := by
  simp only [pairs, List.mem_map, Finset.mem_sort, Prod.mk.injEq]
  constructor
  · rintro ⟨_, hmem, rfl, rfl⟩
    obtain ⟨found, hfound⟩ := Finmap.mem_iff.mp hmem
    rw [hfound, Option.getD_some]
  · intro h
    exact ⟨id, Finmap.mem_iff.mpr ⟨placement, h⟩, rfl, by rw [h, Option.getD_some]⟩

/-- Two maps with the same entries are the same. -/
theorem pairs_inj {first second : Map ComponentID PlacementID} (h : pairs first = pairs second) :
    first = second :=
  Finmap.ext_lookup fun id => Option.ext fun placement => by rw [← mem_pairs, h, mem_pairs]

theorem sortWeights_perm_self (table : List EpochWeight) : (sortWeights table).Perm table :=
  List.perm_insertionSort _ table

theorem sortWeights_ne_nil {table : List EpochWeight} (h : table ≠ []) :
    ∃ weight rest, sortWeights table = weight :: rest :=
  List.exists_cons_of_ne_nil fun hnil =>
    h ((sortWeights_perm_self table).symm.trans (.of_eq hnil)).eq_nil

theorem trafficText_of_ne {table : List EpochWeight} (h : table ≠ []) :
    ∃ weight rest, (weight :: rest).Perm table ∧ (trafficText (some (sortWeights table))).toList =
      ",\"traffic\":[".toList ++ ((jsonElements ((weight :: rest).map canonicalTraffic)).toList ++
        [']']) := by
  obtain ⟨first, others, hsorted⟩ := sortWeights_ne_nil h
  obtain ⟨weight, rest, hagain⟩ := sortWeights_ne_nil (List.cons_ne_nil first others)
  refine ⟨weight, rest, ?_, ?_⟩
  · rw [← hagain]
    exact (sortWeights_perm_self _).trans (hsorted ▸ sortWeights_perm_self table)
  · rw [hsorted, trafficText, hagain]
    simp only [String.toList_append]
    rfl

/-- The text of a table says whether there is one, and which. -/
theorem trafficText_inj {first second : Option (List EpochWeight)}
    (hfirst : ∀ table, first = some table → table ≠ [])
    (hsecond : ∀ table, second = some table → table ≠ [])
    (h : (trafficText (first.map sortWeights)).toList ++ ['\x7d'] =
      (trafficText (second.map sortWeights)).toList ++ ['\x7d']) :
    Option.Rel List.Perm first second := by
  cases first with
  | none =>
    cases second with
    | none => exact .none
    | some table =>
      obtain ⟨weight, rest, -, htext⟩ := trafficText_of_ne (hsecond table rfl)
      rw [Option.map_some, htext] at h
      exact absurd (List.cons.inj h).1 (by decide)
  | some table =>
    obtain ⟨weight, rest, hperm, htext⟩ := trafficText_of_ne (hfirst table rfl)
    rw [Option.map_some, htext] at h
    cases second with
    | none => exact absurd (List.cons.inj h).1 (by decide)
    | some other =>
      obtain ⟨weight', rest', hperm', htext'⟩ := trafficText_of_ne (hsecond other rfl)
      rw [Option.map_some, htext'] at h
      simp only [List.append_assoc, List.append_cancel_left_eq] at h
      exact .some (hperm.symm.trans ((elements_delimited traffic_delimited h).1 ▸ hperm'))

/-- Tables that differ in order only are the same when sorted. -/
theorem sortWeights_perm {first second : List EpochWeight} (h : first.Perm second)
    (hfirst : (sortWeights first).Pairwise fun a b => a.epoch < b.epoch)
    (hsecond : (sortWeights second).Pairwise fun a b => a.epoch < b.epoch) :
    sortWeights first = sortWeights second := by
  refine List.Perm.eq_of_pairwise (fun a b _ _ hab hba => ?_) hfirst hsecond ?_
  · exact absurd (UInt64.lt_trans hab hba) (UInt64.lt_irrefl _)
  · exact (sortWeights_perm_self first).trans (h.trans (sortWeights_perm_self second).symm)

theorem BindingMode.text_inj {mode mode' : BindingMode} (hmode : ∀ text, mode ≠ .other text)
    (hmode' : ∀ text, mode' ≠ .other text) (h : mode.text = mode'.text) : mode = mode' := by
  cases mode <;> cases mode' <;> simp_all [BindingMode.text]

/-- The edges are in the text. -/
theorem edge_of_edgeTexts {first second : Map ComponentID (Map ComponentID BindingMode)}
    (h : edgeTexts first = edgeTexts second)
    (hfirst : ∀ source target mode, edge first source target = some mode →
      ∀ text, mode ≠ .other text)
    (hsecond : ∀ source target mode, edge second source target = some mode →
      ∀ text, mode ≠ .other text)
    {mode : BindingMode} (hedge : edge first source target = some mode) :
    edge second source target = some mode := by
  have hmem : (source, target, mode.text) ∈ edgeTexts second :=
    h ▸ List.mem_map_of_mem (mem_edges.mpr hedge)
  obtain ⟨⟨source', target', mode'⟩, hmem', heq⟩ := List.mem_map.mp hmem
  obtain ⟨rfl, rfl, htext⟩ : source' = source ∧ target' = target ∧ mode'.text = mode.text := by
    simpa using heq
  have hedge' := mem_edges.mp hmem'
  rw [hedge', BindingMode.text_inj (hsecond _ _ _ hedge') (hfirst _ _ _ hedge) htext]

/-- The tables of accepted plans that say the same are the same when sorted. -/
theorem Plan.Same.sorted_traffic {p q : Plan} (h : p.Same q) {first second : Snapshot}
    (hfirst : activate p = .ok first) (hsecond : activate q = .ok second) :
    p.traffic.map sortWeights = q.traffic.map sortWeights := by
  obtain ⟨-, htable⟩ := activate_checked hfirst
  obtain ⟨-, htable'⟩ := activate_checked hsecond
  obtain ⟨-, -, -, -, htraffic⟩ := h
  revert htable htable' htraffic
  rcases p.traffic with _ | table <;> rcases q.traffic with _ | table' <;> rintro htable htable' ⟨⟩
  · rfl
  next hperm =>
    exact congrArg some (sortWeights_perm hperm (htable table rfl).2.2 (htable' table' rfl).2.2)

/-- **The text that is hashed says what the plan is**, and no more. -/
theorem message_eq_iff {p q : Plan} {first second : Snapshot} (hfirst : activate p = .ok first)
    (hsecond : activate q = .ok second) : p.message = q.message ↔ p.Same q := by
  obtain ⟨hmodes, htable⟩ := activate_checked hfirst
  obtain ⟨hmodes', htable'⟩ := activate_checked hsecond
  constructor
  · intro h
    have htext := congrArg String.toList (bytesOf_inj h)
    simp only [canonicalPlan, canonicalBody_eq, String.toList_append, List.append_assoc,
      List.append_cancel_left_eq] at htext
    obtain ⟨hepoch, htext⟩ := digits_delimited (c := ',') (by decide) htext
    obtain ⟨hplacements, htext⟩ :=
      slice_delimited jsonString_delimited (List.append_cancel_left htext)
    obtain ⟨hcomponents, htext⟩ :=
      slice_delimited component_delimited (List.append_cancel_left htext)
    obtain ⟨hedges, htext⟩ := slice_delimited dependency_delimited (List.append_cancel_left htext)
    refine ⟨UInt64.toNat_inj.mp hepoch, ?_, pairs_inj hcomponents, fun source target =>
      Option.ext fun mode => ?_, ?_⟩
    · exact (Finset.sort_toFinset p.placements _).symm.trans
        ((congrArg List.toFinset hplacements).trans (Finset.sort_toFinset q.placements _))
    · exact ⟨edge_of_edgeTexts hedges hmodes hmodes', edge_of_edgeTexts hedges.symm hmodes' hmodes⟩
    · exact trafficText_inj (fun table h => (htable table h).1) (fun table h =>
        (htable' table h).1) htext
  · intro h
    have hclone : (clonePlan p).traffic = (clonePlan q).traffic := h.sorted_traffic hfirst hsecond
    have hbody : canonicalBody (clonePlan p) = canonicalBody (clonePlan q) := by
      rw [canonicalBody_eq, canonicalBody_eq, hclone, edgeTexts, edgeTexts]
      simp only [clonePlan, h.placements, h.components, edges_congr h.edges]
    rw [Plan.message, Plan.message, canonicalPlan, canonicalPlan, hbody]
    simp only [clonePlan, h.epoch]

/-- **The hash identifies the plan**: among plans without a collision, two snapshots have the same
hash exactly if their plans say the same, and then they give the same routes. -/
theorem hash_identifies {S : Set (List UInt8)} (hS : CollisionFree S) {p q : Plan}
    {first second : Snapshot}
    (hfirst : activate p = .ok first) (hsecond : activate q = .ok second) (hp : p.message ∈ S)
    (hq : q.message ∈ S) : (first.hash = second.hash ↔ p.Same q) ∧ (first.hash = second.hash →
      (∀ source target, first.resolve source target = second.resolve source target) ∧
        first.bindings = second.bindings) := by
  have hsame : first.hash = second.hash ↔ p.Same q :=
    (hash_eq_iff hS hfirst hsecond hp hq).trans (message_eq_iff hfirst hsecond)
  refine ⟨hsame, fun hhash => ?_⟩
  have h := hsame.mp hhash
  obtain ⟨hepoch, hcomponents, hedges⟩ : first.epoch = second.epoch ∧
      first.components = second.components ∧
        ∀ source target, edge first.dependencies source target =
          edge second.dependencies source target := by
    obtain ⟨rfl, -⟩ := activate_ok hfirst
    obtain ⟨rfl, -⟩ := activate_ok hsecond
    exact ⟨h.epoch, h.components, h.edges⟩
  have hresolve (source target : ComponentID) :
      first.resolve source target = second.resolve source target := by
    rw [Snapshot.resolve, Snapshot.resolve, hepoch, hhash, hcomponents, hedges]
  refine ⟨hresolve, ?_⟩
  rw [Snapshot.bindings, Snapshot.bindings, hepoch, hhash, edges_congr hedges]
  simp only [hresolve]

namespace Canary

/-- A plan with an edge and this table. -/
def plan (traffic : List EpochWeight) : Plan where
  epoch := 2
  placements := {"p"}
  components := (Finmap.singleton "web" "p").insert "db" "p"
  dependencies := Finmap.singleton "web" (Finmap.singleton "db" .auto)
  traffic := some traffic

theorem hash_identifies_order : ∃ first second, activate (plan [⟨1, 9000⟩, ⟨2, 1000⟩]) = .ok first ∧
    activate (plan [⟨2, 1000⟩, ⟨1, 9000⟩]) = .ok second ∧ first.bindings = second.bindings := by
  have hvalid : validateSnapshot (clonePlan (plan [⟨1, 9000⟩, ⟨2, 1000⟩])) = .ok () := by
    decide +kernel
  have hvalid' : validateSnapshot (clonePlan (plan [⟨2, 1000⟩, ⟨1, 9000⟩])) = .ok () := by
    decide +kernel
  have hclone : clonePlan (plan [⟨1, 9000⟩, ⟨2, 1000⟩]) = clonePlan (plan [⟨2, 1000⟩, ⟨1, 9000⟩]) :=
    rfl
  have h := hash_identifies (Set.injOn_singleton _ _) (activate_of_valid hvalid)
    (activate_of_valid hvalid')
    (Set.mem_singleton _) (Set.mem_singleton_iff.mpr
      (congrArg (fun s => bytesOf (canonicalPlan s)) hclone.symm))
  exact ⟨_, _, activate_of_valid hvalid, activate_of_valid hvalid',
    (h.2 (congrArg canonicalHash hclone)).2⟩

end Canary

end Keelith.Topology

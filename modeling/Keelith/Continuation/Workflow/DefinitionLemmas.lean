import Keelith.Continuation.StateLemmas
import Keelith.Continuation.Workflow.Definition
import Keelith.Lib.Dag

/-!
# Accepted workflow definitions

What `newWorkflowDefinition` accepts: `DefinitionOk`, with the nodes in topological order.

* `checkNodes_spec`: what the first loop checks of every node.
* `foldl_release`: what placing a node does to the degrees and the ready nodes.
* `PlacingInv`: the invariant of the placing loop. A node's degree counts its dependencies that are
  not placed, and a node is ready or placed if they all are.
-/

namespace Keelith.Continuation

/-- Every dependency comes before its dependents. -/
abbrev Ordered (nodes : List WorkflowNodeSpec) : Prop :=
  Dag.Topological WorkflowNodeSpec.id WorkflowNodeSpec.dependsOn nodes

/-- The checks of `NewWorkflowDefinition` on one node. -/
structure SpecOk (node : WorkflowNodeSpec) : Prop where
  id : validIdentity node.id = true
  kind : node.kind.valid = true
  policy : node.failurePolicy.valid = true
  shape : validWorkflowNodeShape node = true
  nodup : node.dependsOn.Nodup

/-- The definitions that `newWorkflowDefinition` accepts. -/
structure DefinitionOk (d : WorkflowDefinition) : Prop where
  operation : validOperation d.operation = true
  version : validIdentity d.version = true
  digest : d.fingerprint.utf8ByteSize = 64 ∧ hexDecodes d.fingerprint = true
  size : 0 < d.nodes.length ∧ d.nodes.length ≤ maxWorkflowNodes
  nodup : (d.nodes.map WorkflowNodeSpec.id).Nodup
  ordered : Ordered d.nodes
  node : ∀ node ∈ d.nodes, SpecOk node

/-! ## Checks -/

theorem validDependencies_iff {id : String} {seen deps : List String} :
    validDependencies id seen deps = true ↔
      deps.Nodup ∧ ∀ d ∈ deps, validIdentity d = true ∧ d ≠ id ∧ d ∉ seen := by
  induction deps generalizing seen with
  | nil => simp [validDependencies]
  | cons d deps ih =>
    simp only [validDependencies, Bool.and_eq_true, ih, bne_iff_ne, Bool.not_eq_true',
      List.contains_eq_mem, decide_eq_false_iff_not, List.nodup_cons, List.mem_cons, not_or]
    constructor
    · rintro ⟨⟨⟨hv, hne⟩, hseen⟩, hnodup, hrest⟩
      refine ⟨⟨fun hm => (hrest d hm).2.2.1 rfl, hnodup⟩, ?_⟩
      rintro e (rfl | he)
      · exact ⟨hv, hne, hseen⟩
      · exact ⟨(hrest e he).1, (hrest e he).2.1, (hrest e he).2.2.2⟩
    · rintro ⟨⟨hnotin, hnodup⟩, hall⟩
      obtain ⟨hv, hne, hseen⟩ := hall d (.inl rfl)
      refine ⟨⟨⟨hv, hne⟩, hseen⟩, hnodup, fun e he => ?_⟩
      obtain ⟨hv', hne', hseen'⟩ := hall e (.inr he)
      exact ⟨hv', hne', fun h => hnotin (h ▸ he), hseen'⟩

theorem checkNodes_spec {index edges : Nat} {byID byID' : Map String Nat}
    {nodes : List WorkflowNodeSpec} (h : checkNodes index edges byID nodes = some byID') :
    (∀ node ∈ nodes, SpecOk node ∧ byID.lookup node.id = none) ∧
      (nodes.map WorkflowNodeSpec.id).Nodup ∧
      (∀ i node, nodes[i]? = some node → byID'.lookup node.id = some (index + i)) ∧
      ∀ id, id ∉ nodes.map WorkflowNodeSpec.id → byID'.lookup id = byID.lookup id := by
  induction nodes generalizing index edges byID with
  | nil =>
    cases h
    simp
  | cons node nodes ih =>
    simp only [checkNodes, Option.ite_none_left_eq_some] at h
    obtain ⟨h1, h2, h3, h4, h⟩ := h
    simp only [Bool.or_eq_true, Bool.not_eq_true', not_or, Bool.not_eq_false,
      Option.isSome_iff_ne_none, not_not] at h1 h2 h3 h4
    obtain ⟨hall, hnodup, hindex, hother⟩ := ih h
    have hfresh : ∀ m ∈ nodes, m.id ≠ node.id ∧ byID.lookup m.id = none := by
      intro m hm
      have hl := (hall m hm).2
      rw [Map.lookup_insert_eq] at hl
      split at hl
      · cases hl
      · rename_i hne
        exact ⟨hne, hl⟩
    have hnotin : node.id ∉ nodes.map WorkflowNodeSpec.id := by
      intro hm
      obtain ⟨m, hm, he⟩ := List.mem_map.mp hm
      exact (hfresh m hm).1 he
    refine ⟨?_, List.nodup_cons.mpr ⟨hnotin, hnodup⟩, ?_, ?_⟩
    · intro m hm
      rcases List.mem_cons.mp hm with rfl | hm
      · exact ⟨⟨h1.1.1, h1.1.2, h1.2, h3.2, (validDependencies_iff.mp h4).1⟩, h2⟩
      · exact ⟨(hall m hm).1, (hfresh m hm).2⟩
    · intro i m hi
      cases i with
      | zero =>
        obtain rfl : node = m := by simpa using hi
        rw [hother _ hnotin, Finmap.lookup_insert]
        rfl
      | succ i =>
        rw [hindex i m (by simpa using hi)]
        congr 1
        omega
    · intro id hid
      simp only [List.map_cons, List.mem_cons, not_or] at hid
      rw [hother id hid.2, Map.lookup_insert_eq, if_neg hid.1]

/-! ## Order -/

/-- The degree that the loop has recorded for a node. -/
def Placing.degree (s : Placing) (id : String) : Int := (s.indegree.lookup id).getD 0

/-- What the inner loop does: the degree of each dependent falls by one, and those that reach zero
become ready. -/
theorem foldl_release {ids : List String} (hnodup : ids.Nodup) (s : Placing) :
    (ids.foldl release s).result = s.result ∧
      (∀ i, (ids.foldl release s).degree i = if i ∈ ids then s.degree i - 1 else s.degree i) ∧
      (ids.foldl release s).ready.Perm (s.ready ++ ids.filter fun i => s.degree i = 1) := by
  induction ids generalizing s with
  | nil => simp
  | cons id ids ih =>
    obtain ⟨hnotin, hnodup⟩ := List.nodup_cons.mp hnodup
    obtain ⟨hresult, hdegree, hready⟩ := ih hnodup (release s id)
    have hdeg : ∀ i, (release s id).degree i = if i = id then s.degree i - 1 else s.degree i := by
      intro i
      simp only [release, Placing.degree]
      by_cases hi : i = id
      · subst hi
        simp
      · simp [hi]
    refine ⟨hresult, fun i => ?_, hready.trans ?_⟩
    · rw [List.foldl_cons, hdegree i, hdeg i]
      by_cases hi : i = id
      · subst hi
        simp [hnotin]
      · simp [hi]
    · have hfilter : (ids.filter fun i => (release s id).degree i = 1) =
          ids.filter fun i => s.degree i = 1 := by
        apply List.filter_congr
        intro i hi
        have hne : i ≠ id := fun he => hnotin (he ▸ hi)
        rw [hdeg i, if_neg hne]
      rw [hfilter]
      have hsub : (s.indegree.lookup id).getD 0 - 1 = 0 ↔ s.degree id = 1 := by
        unfold Placing.degree
        omega
      simp only [release, hsub]
      by_cases hone : s.degree id = 1
      · rw [if_pos hone, List.filter_cons_of_pos (by simpa using hone)]
        have hsort : (sortStrings (s.ready ++ [id])).Perm (s.ready ++ [id]) :=
          List.perm_insertionSort ..
        refine (hsort.append_right _).trans ?_
        simp
      · rw [if_neg hone, List.filter_cons_of_neg (by simpa using hone)]

/-- The dependencies of a node that are not placed. -/
def unplaced (result : List WorkflowNodeSpec) (node : WorkflowNodeSpec) : List String :=
  node.dependsOn.filter fun d => d ∉ result.map WorkflowNodeSpec.id

/-- The invariant of the placing loop. -/
structure PlacingInv (nodes : List WorkflowNodeSpec) (s : Placing) : Prop where
  result : ∀ node ∈ s.result, node ∈ nodes
  ready : ∀ id ∈ s.ready, id ∈ nodes.map WorkflowNodeSpec.id
  nodup : (s.result.map WorkflowNodeSpec.id ++ s.ready).Nodup
  degree : ∀ node ∈ nodes, s.degree node.id = (unplaced s.result node).length
  free : ∀ node ∈ nodes, unplaced s.result node = [] ↔
    node.id ∈ s.result.map WorkflowNodeSpec.id ++ s.ready
  ordered : Ordered s.result

section

variable {nodes : List WorkflowNodeSpec} {byID : Map String Nat}

/-- What the checks give the placing loop. -/
structure Checked (nodes : List WorkflowNodeSpec) (byID : Map String Nat) : Prop where
  nodup : (nodes.map WorkflowNodeSpec.id).Nodup
  deps : ∀ node ∈ nodes, node.dependsOn.Nodup
  index : ∀ i node, nodes[i]? = some node → byID.lookup node.id = some i

theorem Checked.inj (h : Checked nodes byID) {a b : WorkflowNodeSpec} (ha : a ∈ nodes)
    (hb : b ∈ nodes) (hid : a.id = b.id) : a = b :=
  List.inj_on_of_nodup_map h.nodup ha hb hid

theorem Checked.node (h : Checked nodes byID) {node : WorkflowNodeSpec} (hm : node ∈ nodes) :
    nodes[(byID.lookup node.id).getD 0]?.toList = [node] := by
  obtain ⟨i, hi⟩ := List.mem_iff_getElem?.mp hm
  rw [h.index i node hi, Option.getD_some, hi]
  rfl

/-- The dependents of a node, once each. -/
theorem Checked.dependents (h : Checked nodes byID) (id : String) :
    (((dependents nodes).lookup id).getD []).Nodup ∧
      ∀ node ∈ nodes, node.id ∈ ((dependents nodes).lookup id).getD [] ↔ id ∈ node.dependsOn := by
  rw [lookup_dependents]
  constructor
  · rw [List.nodup_flatMap]
    refine ⟨fun node hm => ?_, ?_⟩
    · rw [List.nodup_replicate]
      exact List.nodup_iff_count_le_one.mp (h.deps node hm) id
    · refine (List.pairwise_map.mp h.nodup).imp fun {a b} hne => ?_
      intro x hx hy
      exact hne ((List.eq_of_mem_replicate hx).symm.trans (List.eq_of_mem_replicate hy))
  · intro node hm
    rw [List.mem_flatMap]
    constructor
    · rintro ⟨m, hm', hin⟩
      obtain rfl := h.inj hm hm' (List.eq_of_mem_replicate hin)
      exact List.count_pos_iff.mp (Nat.pos_of_ne_zero fun h0 => by simp [h0] at hin)
    · intro hid
      refine ⟨node, hm, ?_⟩
      rw [List.mem_replicate]
      exact ⟨(List.count_pos_iff.mpr hid).ne', rfl⟩

/-- Placing `placed` removes it from the unplaced dependencies. -/
theorem unplaced_snoc (result : List WorkflowNodeSpec) (placed node : WorkflowNodeSpec) :
    unplaced (result ++ [placed]) node = (unplaced result node).filter fun d => d ≠ placed.id := by
  unfold unplaced
  rw [List.filter_filter]
  apply List.filter_congr
  intro d _
  rw [Bool.eq_iff_iff]
  simp [and_comm]

variable {result : List WorkflowNodeSpec}

theorem length_unplaced_snoc {placed node : WorkflowNodeSpec}
    (hnodup : node.dependsOn.Nodup) (hnew : placed.id ∉ result.map WorkflowNodeSpec.id) :
    (unplaced (result ++ [placed]) node).length + (if placed.id ∈ node.dependsOn then 1 else 0) =
      (unplaced result node).length := by
  have hfilter : (unplaced (result ++ [placed]) node) = (unplaced result node).erase placed.id := by
    have hn : (unplaced result node).Nodup := hnodup.filter _
    rw [unplaced_snoc, hn.erase_eq_filter]
    apply List.filter_congr
    intro d _
    rw [Bool.eq_iff_iff]
    simp
  have hmem : placed.id ∈ unplaced result node ↔ placed.id ∈ node.dependsOn := by
    unfold unplaced
    simpa using fun _ => by simpa using hnew
  rw [hfilter]
  split
  · rename_i hin
    rw [List.length_erase_of_mem (hmem.mpr hin)]
    have := List.length_pos_of_mem (hmem.mpr hin)
    omega
  · rename_i hin
    rw [List.erase_of_not_mem (fun h => hin (hmem.mp h))]
    omega

/-- What one iteration does: it places the first ready node, and the nodes `released` that waited
only for it become ready. -/
structure Placed (nodes : List WorkflowNodeSpec) (s s' : Placing) (placed : WorkflowNodeSpec)
    (rest released : List String) : Prop where
  mem : placed ∈ nodes
  first : s.ready = placed.id :: rest
  result : s'.result = s.result ++ [placed]
  ready : s'.ready.Perm (rest ++ released)
  degree : ∀ node ∈ nodes,
    s'.degree node.id = s.degree node.id - if placed.id ∈ node.dependsOn then 1 else 0
  nodup : released.Nodup
  known : ∀ id ∈ released, ∃ node ∈ nodes, node.id = id
  waiting : ∀ node ∈ nodes,
    node.id ∈ released ↔ placed.id ∈ node.dependsOn ∧ s.degree node.id = 1

theorem placed_of_place (h : Checked nodes byID) {s s' : Placing} (hs : PlacingInv nodes s)
    (hbody : place nodes byID s = .inl s') : ∃ placed rest released,
      Placed nodes s s' placed rest released := by
  unfold place at hbody
  split at hbody
  · cases hbody
  rename_i id rest hready
  obtain ⟨placed, hplaced, rfl⟩ := List.mem_map.mp (hs.ready id (by simp [hready]))
  obtain rfl := Sum.inl.inj hbody
  obtain ⟨hnodup, hmem⟩ := h.dependents placed.id
  rw [h.node hplaced]
  obtain ⟨hresult, hdegree, hperm⟩ := foldl_release hnodup
    { s with ready := rest, result := s.result ++ [placed] }
  refine ⟨placed, rest, _, hplaced, hready, hresult, hperm, fun node hm => ?_, hnodup.filter _,
    fun i hi => ?_, fun node hm => ?_⟩
  · rw [hdegree]
    simp only [hmem node hm]
    split
    · rfl
    · exact (sub_zero _).symm
  · have hi := (List.mem_filter.mp hi).1
    rw [lookup_dependents] at hi
    obtain ⟨node, hm, hin⟩ := List.mem_flatMap.mp hi
    exact ⟨node, hm, (List.eq_of_mem_replicate hin).symm⟩
  · rw [List.mem_filter, hmem node hm, decide_eq_true_eq]
    rfl

namespace PlacingInv

variable {s s' : Placing} {placed : WorkflowNodeSpec} {rest released : List String}

theorem mem_new (hp : Placed nodes s s' placed rest released) (id : String) :
    id ∈ s'.result.map WorkflowNodeSpec.id ++ s'.ready ↔
      id ∈ s.result.map WorkflowNodeSpec.id ++ s.ready ∨ id ∈ released := by
  rw [hp.result, hp.first, List.mem_append, hp.ready.mem_iff]
  simp only [List.map_append, List.map_cons, List.mem_append, List.mem_cons]
  tauto

section

variable (hs : PlacingInv nodes s) (hp : Placed nodes s s' placed rest released)

include hs hp

theorem not_placed : placed.id ∉ s.result.map WorkflowNodeSpec.id := by
  have hnodup := hs.nodup
  rw [hp.first] at hnodup
  exact fun hin => (List.nodup_append.mp hnodup).2.2 _ hin placed.id (by simp) rfl

theorem length_unplaced (h : Checked nodes byID) {node : WorkflowNodeSpec} (hm : node ∈ nodes) :
    (unplaced s'.result node).length + (if placed.id ∈ node.dependsOn then 1 else 0) =
      (unplaced s.result node).length := by
  rw [hp.result]
  exact length_unplaced_snoc (h.deps node hm) (hs.not_placed hp)

theorem nodup_new : (s'.result.map WorkflowNodeSpec.id ++ s'.ready).Nodup := by
  have hperm : (s'.result.map WorkflowNodeSpec.id ++ s'.ready).Perm
      ((s.result.map WorkflowNodeSpec.id ++ s.ready) ++ released) := by
    rw [hp.result, hp.first, List.map_append, List.append_assoc,
      List.append_assoc]
    exact (hp.ready.append_left [placed.id]).append_left _
  rw [hperm.nodup_iff, List.nodup_append]
  refine ⟨hs.nodup, hp.nodup, fun id hid id' hid' he => ?_⟩
  subst he
  -- a released node has an unplaced dependency, so it was neither ready nor placed
  obtain ⟨node, hm, rfl⟩ := hp.known id hid'
  have hnil := (hs.free node hm).mpr hid
  have hone := ((hp.waiting node hm).mp hid').2
  rw [hs.degree node hm, hnil] at hone
  cases hone

theorem free_new (h : Checked nodes byID) {node : WorkflowNodeSpec} (hm : node ∈ nodes) :
    unplaced s'.result node = [] ↔ node.id ∈ s'.result.map WorkflowNodeSpec.id ++ s'.ready := by
  have hsum := hs.length_unplaced hp h hm
  have hdeg := hs.degree node hm
  rw [mem_new hp, ← hs.free node hm, hp.waiting node hm, ← List.length_eq_zero_iff,
    ← List.length_eq_zero_iff]
  split at hsum
  · rename_i hin
    simp only [hin, true_and]
    omega
  · rename_i hin
    simp only [hin, false_and, or_false]
    omega

end

theorem step (hs : PlacingInv nodes s) (h : Checked nodes byID)
    (hbody : place nodes byID s = .inl s') : PlacingInv nodes s' := by
  obtain ⟨placed, rest, released, hp⟩ := placed_of_place h hs hbody
  refine ⟨?_, ?_, hs.nodup_new hp, fun node hm => ?_, fun node hm => hs.free_new hp h hm, ?_⟩
  · rw [hp.result]
    exact List.forall_mem_append.mpr ⟨hs.result, List.forall_mem_singleton.mpr hp.mem⟩
  · intro id hid
    rcases List.mem_append.mp (hp.ready.mem_iff.mp hid) with hid | hid
    · exact hs.ready id (by simp [hp.first, hid])
    · obtain ⟨node, hm, rfl⟩ := hp.known id hid
      exact List.mem_map_of_mem hm
  · have hsum := hs.length_unplaced hp h hm
    have hdeg := hs.degree node hm
    rw [hp.degree node hm]
    split at hsum <;> split <;> first | omega | contradiction
  · rw [hp.result]
    refine hs.ordered.snoc fun d hd => ?_
    have hnil := (hs.free placed hp.mem).mpr (by simp [hp.first])
    by_contra hnotin
    have hin : d ∈ unplaced s.result placed := List.mem_filter.mpr ⟨hd, by simpa using hnotin⟩
    rw [hnil] at hin
    cases hin

end PlacingInv

theorem lookup_indegrees (hnodup : (nodes.map WorkflowNodeSpec.id).Nodup) :
    (∀ node ∈ nodes, (indegrees nodes).lookup node.id = some (node.dependsOn.length : Int)) ∧
      ∀ id ∉ nodes.map WorkflowNodeSpec.id, (indegrees nodes).lookup id = none :=
  Map.lookup_foldl_insert hnodup ∅

theorem PlacingInv.initial (hnodup : (nodes.map WorkflowNodeSpec.id).Nodup) :
    PlacingInv nodes
      { ready := ((indegrees nodes).keys.filter fun id =>
        (indegrees nodes).lookup id = some 0).sort,
        indegree := indegrees nodes, result := [] } := by
  obtain ⟨hmem, hother⟩ := lookup_indegrees hnodup
  have hunplaced : ∀ node : WorkflowNodeSpec, unplaced [] node = node.dependsOn := by
    simp [unplaced]
  refine ⟨by simp, fun id hid => ?_, by simp, fun node hm => ?_, fun node hm => ?_, .nil⟩
  · simp only [Finset.mem_sort, Finset.mem_filter] at hid
    by_contra hnotin
    rw [hother id hnotin] at hid
    cases hid.2
  · simp [Placing.degree, hmem node hm, hunplaced]
  · have hkey := Finmap.mem_keys.mpr (Map.mem_of_lookup (hmem node hm))
    simp [hunplaced, hmem node hm, hkey]

/-- What the placing loop returns. -/
theorem topologicalWorkflowNodes_ok (h : Checked nodes byID)
    (hok : topologicalWorkflowNodes nodes byID = .ok result) :
    result.length = nodes.length ∧ (result.map WorkflowNodeSpec.id).Nodup ∧
      (∀ node ∈ result, node ∈ nodes) ∧ Ordered result := by
  have hpost := Loop.eval_spec (place_terminating nodes byID) (PlacingInv nodes)
    (fun result => (result.map WorkflowNodeSpec.id).Nodup ∧ (∀ node ∈ result, node ∈ nodes) ∧
      Ordered result)
    (fun s s' hs hbody => hs.step h hbody)
    (fun s r hs hbody => by
      unfold place at hbody
      split at hbody
      · obtain rfl := Sum.inr.inj hbody
        exact ⟨(List.nodup_append.mp hs.nodup).1, hs.result, hs.ordered⟩
      · cases hbody)
    (PlacingInv.initial h.nodup)
  simp only [topologicalWorkflowNodes] at hok
  split at hok
  · cases hok
  rename_i hlen
  cases hok
  exact ⟨by simpa using hlen, hpost⟩

end

/-- **The definitions that `newWorkflowDefinition` accepts.** -/
theorem newWorkflowDefinition_ok {spec : WorkflowDefinitionSpec} {d : WorkflowDefinition}
    (h : newWorkflowDefinition spec = .ok d) : DefinitionOk d := by
  simp only [newWorkflowDefinition] at h
  obtain ⟨hargs, h⟩ := guard_eq_ok.mp h
  split at h
  · cases h
  rename_i byID hcheck
  split at h
  · cases h
  split at h
  · cases h
  rename_i topological hplaced
  cases h
  simp only [Bool.or_eq_true, Bool.not_eq_true', not_or, Bool.not_eq_false, beq_iff_eq,
    decide_eq_true_eq] at hargs
  obtain ⟨⟨⟨hop, hversion⟩, hpos⟩, hmax⟩ := hargs
  obtain ⟨hnode, hnodup, hindex, -⟩ := checkNodes_spec hcheck
  have hchecked : Checked _ byID :=
    ⟨hnodup, fun node hm => (hnode node hm).1.nodup,
      fun i node hi => by simpa using hindex i node hi⟩
  obtain ⟨hlen, hnodup', hmem, hordered⟩ := topologicalWorkflowNodes_ok hchecked hplaced
  rw [List.length_map] at hlen
  refine ⟨hop, hversion, ⟨?_, hexEncode_decodes _⟩, ?_, hnodup', hordered, fun node hm => ?_⟩
  · simp [workflowFingerprint, utf8ByteSize_hexEncode]
  · simp only
    omega
  · exact (hnode node (hmem node hm)).1

end Keelith.Continuation

import Keelith.Lib.Checks
import Keelith.Wiring.Model
import Mathlib.Algebra.BigOperators.Group.Finset.Piecewise

/-!
# The order of providers

`orderProviders` accepts providers with different keys whose inputs are supplied, if the graph of
the inputs that are not slices has no cycle (`Acyclic`); then each provider stands after those that
supply these inputs.
-/

namespace Keelith.Wiring

variable {providers : List Provider}

/-! ## The checks -/

theorem checkOutputs_eq_ok {previous rest : List Provider} : checkOutputs previous rest = .ok () ↔
    (∀ p ∈ rest, ∀ q ∈ previous, q.key ≠ p.key) ∧ (rest.map Provider.key).Nodup := by
  induction rest generalizing previous with
  | nil => simp [checkOutputs]
  | cons p rest ih =>
    unfold checkOutputs
    split
    next q hq =>
      have hkey : q.key = p.key := by simpa using List.find?_some hq
      exact ⟨nofun, fun h =>
        absurd hkey (h.1 p List.mem_cons_self q (List.mem_of_find?_eq_some hq))⟩
    next hnone =>
      have hnew : ∀ q ∈ previous, q.key ≠ p.key := by simpa using hnone
      rw [ih, List.map_cons, List.nodup_cons]
      constructor
      · rintro ⟨hrest, hnodup⟩
        refine ⟨fun r hr q hq => ?_, fun hmem => ?_, hnodup⟩
        · rcases List.mem_cons.mp hr with rfl | hr
          · exact hnew q hq
          · exact hrest r hr q (List.mem_append_left _ hq)
        · obtain ⟨r, hr, hkey⟩ := List.mem_map.mp hmem
          exact hrest r hr p (by simp) hkey.symm
      · rintro ⟨hall, hnotin, hnodup⟩
        refine ⟨fun r hr => List.forall_mem_append.mpr ⟨hall r (List.mem_cons_of_mem _ hr), ?_⟩,
          hnodup⟩
        exact List.forall_mem_singleton.mpr fun hkey => hnotin (List.mem_map.mpr ⟨r, hr, hkey.symm⟩)

/-- The provider gives what the input asks for. -/
def Provider.feeds (q : Provider) (input : String) : Bool :=
  if isSlice input then q.declares input else q.key = input

/-- The scopes of a provider and one that it depends on do not fit. -/
abbrev clash (p q : Provider) : Prop := p.scope = "application" ∧ q.scope = "transient"

/-- The degree, as a sum: an input counts for the one that supplies it. -/
theorem sum_countP {α : Type} {n : Nat} {f : α → Option Nat} {l : List α}
    (h : ∀ x ∈ l, ∃ u < n, f x = some u) :
    ∑ u ∈ Finset.range n, l.countP (fun x => f x = some u) = l.length := by
  induction l with
  | nil => simp
  | cons x l ih =>
    obtain ⟨w, hw, hx⟩ := h x List.mem_cons_self
    have hone : ∑ u ∈ Finset.range n, (if f x = some u then 1 else 0) = 1 := by
      simp [hx, hw]
    simp [List.countP_cons, Finset.sum_add_distrib, hone, ih fun y hy =>
      h y (List.mem_cons_of_mem x hy)]

/-- How often an index is in the list of another: once for each input. -/
theorem count_dependents (u v : Nat) : (dependents providers u).count v =
    ((providers[v]?.map Provider.plainInputs).getD []).countP fun input =>
      supplier providers input = some u := by
  have hreplicate : ∀ (l : List String) (i : Nat),
      (l.filterMap fun input => if supplier providers input = some u then some i else none) =
        List.replicate (l.countP fun input => supplier providers input = some u) i := by
    intro l i
    induction l with
    | nil => rfl
    | cons input l ih =>
      by_cases hu : supplier providers input = some u
      · simp [hu, ih, List.replicate_succ]
      · simp [hu, ih]
  have hsum : (dependents providers u).count v = ∑ i ∈ Finset.range providers.length, if i = v then
      ((providers[i]?.map Provider.plainInputs).getD []).countP fun input =>
        supplier providers input = some u else 0 := by
    rw [dependents, List.count_flatMap, ← List.toFinset_range, List.sum_toFinset _ List.nodup_range]
    simp [Function.comp_def, hreplicate, List.count_replicate]
  rw [hsum, Finset.sum_ite_eq']
  split
  next => rfl
  next hv => simp [List.getElem?_eq_none (Nat.not_lt.mp fun h => hv (Finset.mem_range.mpr h))]

theorem select_range (providers : List Provider) :
    select providers (List.range providers.length) = providers.map Provider.withKey := by
  unfold select
  induction providers with
  | nil => rfl
  | cons p providers ih => simp [List.range_succ_eq_map, ih]

section

variable (hkeys : (providers.map Provider.key).Nodup)

include hkeys

/-- An input is accepted if something feeds it, and nothing that does is of the wrong scope. -/
theorem checkInput_eq_ok {p : Provider} {input : String} : checkInput providers p input = .ok () ↔
      (∃ q ∈ providers, q.feeds input = true) ∧ ∀ q ∈ providers, q.feeds input = true →
        ¬ clash p q := by
  unfold checkInput Provider.feeds
  split
  next =>
    split
    next hnone =>
      refine ⟨nofun, fun ⟨⟨q, hq, hdeclares⟩, _⟩ => ?_⟩
      exact absurd hdeclares (List.filter_eq_nil_iff.mp hnone q hq)
    next grouped hne =>
      have hex : ∃ q ∈ providers, q.declares input = true := by
        obtain ⟨q, hq⟩ := List.exists_mem_of_ne_nil _ hne
        exact ⟨q, (List.mem_filter.mp hq).1, (List.mem_filter.mp hq).2⟩
      split
      next q hq =>
        obtain ⟨hmem, hdeclares⟩ := List.mem_filter.mp (List.mem_of_find?_eq_some hq)
        have hclash : clash p q := by simpa using List.find?_some hq
        exact ⟨nofun, fun h => absurd hclash (h.2 q hmem hdeclares)⟩
      next hnone =>
        refine ⟨fun _ => ⟨hex, fun q hq hdeclares hclash => ?_⟩, fun _ => rfl⟩
        exact List.find?_eq_none.mp hnone q (List.mem_filter.mpr ⟨hq, hdeclares⟩)
          (decide_eq_true hclash)
  next =>
    simp only [decide_eq_true_eq]
    split
    next hnone =>
      refine ⟨nofun, fun ⟨⟨q, hq, hkey⟩, _⟩ => ?_⟩
      exact absurd (decide_eq_true hkey) (List.find?_eq_none.mp hnone q hq)
    next q hq =>
      have hmem := List.mem_of_find?_eq_some hq
      have hkey : q.key = input := by simpa using List.find?_some hq
      rw [guard_eq_ok]
      constructor
      · rintro ⟨hclash, -⟩
        refine ⟨⟨q, hmem, hkey⟩, fun r hr hrkey => ?_⟩
        rwa [List.inj_on_of_nodup_map hkeys hr hmem (hrkey.trans hkey.symm)]
      · rintro ⟨-, hall⟩
        exact ⟨hall q hmem hkey, rfl⟩

theorem checkInputs_eq_ok : checkInputs providers = .ok () ↔
    ∀ p ∈ providers, ∀ input ∈ p.inputTypes, (∃ q ∈ providers, q.feeds input = true) ∧
      ∀ q ∈ providers, q.feeds input = true → ¬ clash p q := by
  rw [checkInputs, forM_eq_ok]
  refine forall₂_congr fun p _ => ?_
  rw [forM_eq_ok]
  exact forall₂_congr fun input _ => checkInput_eq_ok hkeys

/-! ## The graph -/

/-- An input of `j` that is not a slice is what `i` supplies. -/
def Depends (providers : List Provider) (i j : Nat) : Prop :=
  ∃ p q, providers[i]? = some p ∧ providers[j]? = some q ∧ p.key ∈ q.plainInputs

/-- The inputs that are not slices make no cycle. -/
def Acyclic (providers : List Provider) : Prop := ∀ i, ¬ Relation.TransGen (Depends providers) i i

theorem supplier_eq_some {input : String} {u : Nat} :
    supplier providers input = some u ↔ ∃ p, providers[u]? = some p ∧ p.key = input := by
  rw [supplier, List.findIdx?_eq_some_iff_getElem]
  constructor
  · rintro ⟨hu, hkey, -⟩
    exact ⟨providers[u], List.getElem?_eq_getElem hu, by simpa using hkey⟩
  · rintro ⟨p, hp, rfl⟩
    obtain ⟨hu, rfl⟩ := List.getElem?_eq_some_iff.mp hp
    refine ⟨hu, by simp, fun j hj heq => ?_⟩
    have hmap : (providers.map Provider.key)[u]? = (providers.map Provider.key)[j]? := by
      have hkey : providers[j].key = providers[u].key := by simpa using heq
      simp [hu, hj.trans hu, hkey]
    exact absurd ((List.getElem?_inj (by simpa using hu) hkeys).mp hmap) hj.ne'

theorem mem_dependents {u v : Nat} : v ∈ dependents providers u ↔ Depends providers u v := by
  rw [← List.count_pos_iff, count_dependents, List.countP_pos_iff]
  simp only [decide_eq_true_eq, supplier_eq_some hkeys]
  constructor
  · rintro ⟨input, hinput, p, hp, rfl⟩
    cases hv : providers[v]? with
    | none => simp [hv] at hinput
    | some q => exact ⟨p, q, hp, hv, by simpa [hv] using hinput⟩
  · rintro ⟨p, q, hp, hq, hkey⟩
    exact ⟨p.key, by simpa [hq] using hkey, p, hp, rfl⟩

theorem dependents_lt (u : Nat) : ∀ v ∈ dependents providers u, v < providers.length := by
  intro v hv
  obtain ⟨p, q, -, hq, -⟩ := (mem_dependents hkeys).mp hv
  exact (List.getElem?_eq_some_iff.mp hq).1

theorem edge_iff {u v : Nat} : Kahn.Edge providers.length (dependents providers) u v ↔
    Depends providers u v := by
  rw [Kahn.Edge, mem_dependents hkeys]
  refine ⟨fun h => h.2, fun h => ⟨?_, h⟩⟩
  obtain ⟨p, q, hp, -, -⟩ := h
  exact (List.getElem?_eq_some_iff.mp hp).1

theorem acyclic_iff : Kahn.Acyclic providers.length (dependents providers) ↔ Acyclic providers := by
  have : Kahn.Edge providers.length (dependents providers) = Depends providers := by
    funext u v
    exact propext (edge_iff hkeys)
  rw [Kahn.Acyclic, Acyclic, this]

/-! ## orderProviders -/

/-- Every input that is not a slice is the key of a provider. -/
def Supplied (providers : List Provider) : Prop :=
  ∀ p ∈ providers, ∀ input ∈ p.plainInputs, ∃ q ∈ providers, q.key = input

section

variable (hsupplied : Supplied providers)

include hsupplied

theorem inv_start :
    Kahn.Inv providers.length (dependents providers)
      (Kahn.start providers.length (indegree providers)) := by
  refine Kahn.inv_start fun v => ?_
  simp only [count_dependents]
  rw [sum_countP]
  · cases hv : providers[v]? <;> simp [indegree, hv]
  · intro input hinput
    cases hv : providers[v]? with
    | none => simp [hv] at hinput
    | some p =>
      obtain ⟨q, hq, hkey⟩ := hsupplied p (List.mem_of_getElem? hv) input
        (by simpa [hv] using hinput)
      obtain ⟨u, hu⟩ := List.getElem?_of_mem hq
      exact ⟨u, (List.getElem?_eq_some_iff.mp hu).1, (supplier_eq_some hkeys).mpr ⟨q, hu, hkey⟩⟩

/-- What `orderProviders` returns: all providers, each after those that supply its inputs. -/
structure Ordered (providers ordered : List Provider) : Prop where
  perm : ordered.Perm (providers.map Provider.withKey)
  before : ∀ (before : List Provider) (p : Provider) (after : List Provider),
    ordered = before ++ p :: after →
    ∀ input ∈ p.plainInputs, (∃ q ∈ before, q.outputKey = input) ∧ ∀ q ∈ p :: after,
      q.outputKey ≠ input

theorem kahn_inv : Kahn.Inv providers.length (dependents providers) (kahn providers) :=
  (inv_start hkeys hsupplied).run (dependents_lt hkeys) _

/-- All indices are taken if there is no cycle. -/
theorem length_kahn :
    (select providers (kahn providers).ordered).length = providers.length ↔ Acyclic providers := by
  have hinv := kahn_inv hkeys hsupplied
  have hlength : (select providers (kahn providers).ordered).length =
      (kahn providers).ordered.length := by
    refine List.filterMap_length_eq_length.mpr fun i hi => ?_
    have hlt := ((hinv.mem i).mp (List.mem_append_left _ hi)).1
    simp [hlt]
  rw [hlength, kahn, (inv_start hkeys hsupplied).length_run_iff (dependents_lt hkeys),
    acyclic_iff hkeys]

theorem kahn_perm (hacyclic : Acyclic providers) :
    (kahn providers).ordered.Perm (List.range providers.length) := by
  have hinv := kahn_inv hkeys hsupplied
  have hall : ∀ v < providers.length, v ∈ (kahn providers).ordered :=
    hinv.all (Kahn.queue_run (inv_start hkeys hsupplied) (dependents_lt hkeys))
      ((acyclic_iff hkeys).mpr hacyclic)
  refine (List.perm_ext_iff_of_nodup (List.nodup_append.mp hinv.nodup).1 List.nodup_range).mpr
    fun v => ?_
  rw [List.mem_range]
  exact ⟨fun hv => ((hinv.mem v).mp (List.mem_append_left _ hv)).1, hall v⟩

/-- If each index stands after those that it depends on, then so do the providers. -/
theorem ordered_of_perm {indices : List Nat} (hperm : indices.Perm (List.range providers.length))
    (hbefore : ∀ (l : List Nat) (v : Nat) (r : List Nat), indices = l ++ v :: r →
      ∀ u, Depends providers u v → u ∈ l) : Ordered providers (select providers indices) := by
  have hp : (select providers indices).Perm (providers.map Provider.withKey) :=
    select_range providers ▸ hperm.filterMap _
  have hnodup : ((select providers indices).map Provider.outputKey).Nodup := by
    rw [(hp.map _).nodup_iff, List.map_map]
    exact hkeys
  refine ⟨hp, fun before p after hordered input hinput => ?_⟩
  obtain ⟨l, r, rfl, rfl, hr⟩ := List.filterMap_eq_append_iff.mp hordered
  obtain ⟨skipped, v, r, rfl, hskipped, hv, rfl⟩ := List.filterMap_eq_cons_iff.mp hr
  obtain ⟨p, hpv, rfl⟩ := Option.map_eq_some_iff.mp hv
  -- the provider that supplies the input is before: it has an index, and this stands before that of
  -- `p`
  obtain ⟨q, hq, rfl⟩ := hsupplied p (List.mem_of_getElem? hpv) input hinput
  obtain ⟨u, hu⟩ := List.getElem?_of_mem hq
  have hmem : q.withKey ∈ select providers l := by
    refine List.mem_filterMap.mpr ⟨u, ?_, by simp [hu]⟩
    rcases List.mem_append.mp (hbefore (l ++ skipped) v r (by simp) u ⟨q, p, hu, hpv,
      hinput⟩) with hl | hs
    · exact hl
    · exact absurd (hskipped u hs) (by simp [hu])
  refine ⟨⟨q.withKey, hmem, rfl⟩, fun t ht hkey => ?_⟩
  rw [hordered, List.map_append] at hnodup
  exact (List.nodup_append.mp hnodup).2.2 _ (List.mem_map_of_mem hmem) _ (List.mem_map_of_mem ht)
    hkey.symm

end

end

/-- What the checks of `orderProviders` accept. -/
structure Checked (providers : List Provider) : Prop where
  keys : (providers.map Provider.key).Nodup
  inputs : ∀ p ∈ providers, ∀ input ∈ p.inputTypes, (∃ q ∈ providers, q.feeds input = true) ∧
    ∀ q ∈ providers, q.feeds input = true → ¬ clash p q

theorem checked_iff : (checkOutputs [] providers = .ok () ∧ checkInputs providers = .ok ()) ↔
    Checked providers := by
  rw [checkOutputs_eq_ok]
  constructor
  · rintro ⟨⟨-, hkeys⟩, hinputs⟩
    exact ⟨hkeys, (checkInputs_eq_ok hkeys).mp hinputs⟩
  · rintro ⟨hkeys, hinputs⟩
    exact ⟨⟨fun _ _ => nofun, hkeys⟩, (checkInputs_eq_ok hkeys).mpr hinputs⟩

theorem Checked.supplied (h : Checked providers) : Supplied providers := by
  intro p hp input hinput
  obtain ⟨hmem, hplain⟩ := List.mem_filter.mp hinput
  obtain ⟨q, hq, hfeeds⟩ := (h.inputs p hp input hmem).1
  refine ⟨q, hq, ?_⟩
  simpa [Provider.feeds, show isSlice input = false by simpa using hplain] using hfeeds

/-- `orderProviders` accepts what the checks accept, if there is no cycle. -/
theorem orderProviders_eq_ok {ordered : List Provider} : orderProviders providers = .ok ordered ↔
    Checked providers ∧ Acyclic providers ∧ ordered =
      select providers (kahn providers).ordered := by
  rw [orderProviders, bind_eq_ok]
  constructor
  · rintro ⟨⟨⟩, houtputs, h⟩
    obtain ⟨⟨⟩, hinputs, h⟩ := bind_eq_ok.mp h
    have hchecked := checked_iff.mp ⟨houtputs, hinputs⟩
    dsimp only at h
    split at h
    next hlength =>
      exact ⟨hchecked, (length_kahn hchecked.keys hchecked.supplied).mp hlength,
        (Except.ok.inj h).symm⟩
    next => exact nomatch h
  · rintro ⟨hchecked, hacyclic, rfl⟩
    obtain ⟨houtputs, hinputs⟩ := checked_iff.mpr hchecked
    refine ⟨(), houtputs, bind_eq_ok.mpr ⟨(), hinputs, ?_⟩⟩
    exact if_pos ((length_kahn hchecked.keys hchecked.supplied).mpr hacyclic)

/-- The order that `orderProviders` returns. -/
theorem ordered_of_orderProviders {ordered : List Provider}
    (h : orderProviders providers = .ok ordered) : Ordered providers ordered := by
  obtain ⟨hchecked, hacyclic, rfl⟩ := orderProviders_eq_ok.mp h
  refine ordered_of_perm hchecked.keys hchecked.supplied
    (kahn_perm hchecked.keys hchecked.supplied hacyclic) ?_
  intro l v r hl u hdepends
  obtain ⟨hu, hv⟩ := (edge_iff hchecked.keys).mpr hdepends
  exact (kahn_inv hchecked.keys hchecked.supplied).before l v r hl u hu hv

end Keelith.Wiring

import Mathlib.Data.List.Nodup
import Mathlib.Logic.Function.Basic

/-!
# Dependency graphs

A list of nodes, each with an identifier and the identifiers of the nodes it depends on.

* `Topological`: every dependency of a node comes before it.
* `Topological.first`: the first node without a property has it on all its dependencies.
* `eval`: the value of each node from the values of its dependencies, computed along the list.
  `eval_eq`: in a topological list the values solve their equations.
-/

namespace Keelith.Dag

variable {α ι β : Type*} (id : α → ι) (deps : α → List ι)

/-- Every dependency of a node comes before it. -/
def Topological (nodes : List α) : Prop :=
  ∀ before node after, nodes = before ++ node :: after → ∀ d ∈ deps node, d ∈ before.map id

namespace Topological

variable {id deps}

theorem nil : Topological id deps [] := by
  intro before node after h
  simp at h

variable {node : α} {nodes : List α}

theorem snoc (h : Topological id deps nodes)
    (hd : ∀ d ∈ deps node, d ∈ nodes.map id) : Topological id deps (nodes ++ [node]) := by
  intro before m after hsplit d hm
  rcases List.eq_nil_or_concat after with rfl | ⟨rest, last, rfl⟩
  · obtain ⟨rfl, hl⟩ := List.append_inj' hsplit rfl
    obtain rfl : node = m := by simpa using hl
    exact hd d hm
  · rw [List.concat_eq_append, ← List.cons_append, ← List.append_assoc] at hsplit
    exact h before m rest (List.append_inj' hsplit rfl).1 d hm

/-- Every dependency of a node is a node. -/
theorem mem_of_dep (h : Topological id deps nodes) (hm : node ∈ nodes)
    {d : ι} (hd : d ∈ deps node) : ∃ m ∈ nodes, id m = d := by
  obtain ⟨before, after, rfl⟩ := List.append_of_mem hm
  obtain ⟨m, hm, hmd⟩ := List.mem_map.mp (h before node after rfl d hd)
  exact ⟨m, by simp [hm], hmd⟩

/-- The first node without the property. -/
theorem first (h : Topological id deps nodes) {P : α → Prop} (hex : ∃ node ∈ nodes, ¬ P node) :
    ∃ node ∈ nodes, ¬ P node ∧ ∀ d ∈ deps node, ∃ m ∈ nodes, id m = d ∧ P m := by
  classical
  obtain ⟨node, hfind⟩ : ∃ node, nodes.find? (fun m => ¬ P m) = some node :=
    Option.isSome_iff_exists.mp (List.find?_isSome.mpr (by simpa using hex))
  obtain ⟨hP, before, after, hn, hbefore⟩ := List.find?_eq_some_iff_append.mp hfind
  refine ⟨node, by simp [hn], of_decide_eq_true hP, fun d hd => ?_⟩
  obtain ⟨m, hm, hmd⟩ := List.mem_map.mp (h before node after hn d hd)
  exact ⟨m, by simp [hn, hm], hmd, by simpa using hbefore m hm⟩

end Topological

section

variable [DecidableEq ι] (f : α → (ι → β) → β)

/-- The values of the nodes, computed along the list from `env`. -/
def eval (env : ι → β) (nodes : List α) : ι → β :=
  nodes.foldl (fun env node => Function.update env (id node) (f node env)) env

variable {id deps f}

variable {env : ι → β} {nodes : List α}

theorem eval_of_notMem {i : ι} (h : i ∉ nodes.map id) : eval id f env nodes i = env i := by
  induction nodes generalizing env with
  | nil => rfl
  | cons node nodes ih =>
    simp only [List.map_cons, List.mem_cons, not_or] at h
    have := @ih (Function.update env (id node) (f node env)) h.2
    rw [Function.update_of_ne h.1] at this
    exact this

/-- **The values solve their equations**, if a node's equation reads only its dependencies. -/
theorem eval_eq (h : Topological id deps nodes) (hnodup : (nodes.map id).Nodup)
    (hlocal : ∀ node e e', (∀ d ∈ deps node, e d = e' d) → f node e = f node e') :
    ∀ node ∈ nodes, eval id f env nodes (id node) = f node (eval id f env nodes) := by
  intro node hm
  obtain ⟨before, after, rfl⟩ := List.append_of_mem hm
  rw [List.map_append] at hnodup
  obtain ⟨-, hrest, hdisjoint⟩ := List.nodup_append.mp hnodup
  have hsplit : eval id f env (before ++ node :: after) =
      eval id f (Function.update (eval id f env before) (id node)
        (f node (eval id f env before))) after := by
    simp [eval]
  have hself : eval id f env (before ++ node :: after) (id node) =
      f node (eval id f env before) := by
    rw [hsplit, eval_of_notMem (List.nodup_cons.mp hrest).1, Function.update_self]
  rw [hself]
  apply hlocal
  intro d hd
  have hbefore := h before node after rfl d hd
  have hne : d ≠ id node := hdisjoint d hbefore (id node) (by simp)
  have hafter : d ∉ after.map id := fun hin => hdisjoint d hbefore d (by simp [hin]) rfl
  rw [hsplit, eval_of_notMem hafter, Function.update_of_ne hne]

end

end Keelith.Dag

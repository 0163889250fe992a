import Mathlib.Algebra.BigOperators.Group.Finset.Basic
import Mathlib.Algebra.Order.BigOperators.Group.Finset
import Mathlib.Logic.Relation
import Mathlib.Order.WellFoundedSet

/-!
# Kahn's algorithm

The nodes `0`, …, `n - 1` of a graph are put in an order in which a node comes after those that it
depends on. A node has a degree, the number of edges to it that have not been followed yet; a queue
holds the nodes of degree zero.

* `dependents u`: the nodes to which an edge of `u` leads, one for each edge.
* `Inv`: the degrees count the edges of the nodes that have not been taken; the nodes of degree zero
  are those that have been taken or are in the queue.
* `Inv.before`: what has been taken stands after what it depends on.
* `Inv.length_run_iff`: every node is taken if and only if the graph has no cycle.
-/

namespace Keelith.Kahn

/-- The variables of the loop. -/
structure State where
  queue : List Nat
  ordered : List Nat
  indegree : Nat → Nat

/-- One edge to `v` is followed. -/
def State.follow (s : State) (v : Nat) : State :=
  { s with
    indegree := Function.update s.indegree v (s.indegree v - 1)
    queue := if s.indegree v - 1 = 0 then s.queue ++ [v] else s.queue }

/-- One round: a node is taken from the queue, and its edges are followed. -/
def step (dependents : Nat → List Nat) (s : State) : State :=
  match s.queue with
  | [] => s
  | u :: rest =>
    (dependents u).foldl State.follow { s with queue := rest, ordered := s.ordered ++ [u] }

/-- Rounds. -/
def run (dependents : Nat → List Nat) : Nat → State → State
  | 0, s => s
  | rounds + 1, s => run dependents rounds (step dependents s)

/-- The nodes of degree zero are in the queue. -/
def start (n : Nat) (indegree : Nat → Nat) : State :=
  ⟨(List.range n).filter fun v => indegree v = 0, [], indegree⟩

variable {n : Nat} {dependents : Nat → List Nat} {s : State}

/-! ## One round -/

theorem ordered_foldl_follow (vs : List Nat) (s : State) :
    (vs.foldl State.follow s).ordered = s.ordered :=
  List.foldlRecOn vs State.follow (motive := fun r : State => r.ordered = s.ordered) rfl
    fun _ hr _ _ => hr

/-- What following edges does. -/
theorem foldl_follow (vs : List Nat) (s : State) (h : ∀ v, vs.count v ≤ s.indegree v) :
    (∀ v, (vs.foldl State.follow s).indegree v + vs.count v = s.indegree v) ∧
    ∃ added, (vs.foldl State.follow s).queue = s.queue ++ added ∧ added.Nodup ∧
      ∀ v, v ∈ added ↔ v ∈ vs ∧ (vs.foldl State.follow s).indegree v = 0 := by
  induction vs generalizing s with
  | nil => exact ⟨fun _ => rfl, [], by simp⟩
  | cons w vs ih =>
    have hw : vs.count w + 1 ≤ s.indegree w := by simpa using h w
    have hrest : ∀ v, vs.count v ≤ (s.follow w).indegree v := by
      intro v
      dsimp only [State.follow]
      rcases eq_or_ne v w with rfl | hne
      · rw [Function.update_self]
        omega
      · rw [Function.update_of_ne hne]
        have := h v
        rwa [List.count_cons_of_ne hne.symm] at this
    obtain ⟨hdegree, added, hqueue, hnodup, hmem⟩ := ih (s.follow w) hrest
    rw [List.foldl_cons]
    have hsum : ∀ v, (vs.foldl State.follow (s.follow w)).indegree v + (w :: vs).count v =
        s.indegree v := by
      intro v
      have := hdegree v
      dsimp only [State.follow] at this ⊢
      rcases eq_or_ne v w with rfl | hne
      · rw [Function.update_self] at this
        rw [List.count_cons_self]
        omega
      · rw [Function.update_of_ne hne] at this
        rwa [List.count_cons_of_ne hne.symm]
    refine ⟨hsum, ?_⟩
    by_cases hzero : s.indegree w - 1 = 0
    · -- the last edge to `w` has been followed
      have hnotin : w ∉ vs := List.count_eq_zero.mp (by omega)
      refine ⟨w :: added, ?_, List.nodup_cons.mpr ⟨fun hin => hnotin ((hmem w).mp hin).1, hnodup⟩,
        fun v => ?_⟩
      · rw [hqueue]
        simp [State.follow, hzero]
      · rw [List.mem_cons, List.mem_cons, hmem v]
        constructor
        · rintro (rfl | ⟨hin, hv⟩)
          · have := hsum v
            rw [List.count_cons_self] at this
            exact ⟨.inl rfl, by omega⟩
          · exact ⟨.inr hin, hv⟩
        · rintro ⟨rfl | hin, hv⟩
          · exact .inl rfl
          · exact .inr ⟨hin, hv⟩
    · refine ⟨added, ?_, hnodup, fun v => ?_⟩
      · rw [hqueue]
        simp [State.follow, hzero]
      · rw [hmem v, List.mem_cons]
        constructor
        · rintro ⟨hin, hv⟩
          exact ⟨.inr hin, hv⟩
        · rintro ⟨rfl | hin, hv⟩
          · have := hsum v
            rw [List.count_cons_self] at this
            exact ⟨List.count_pos_iff.mp (by omega), hv⟩
          · exact ⟨hin, hv⟩

/-- The invariant (module doc). -/
structure Inv (n : Nat) (dependents : Nat → List Nat) (s : State) : Prop where
  nodup : (s.ordered ++ s.queue).Nodup
  degree : ∀ v, s.indegree v = ∑ u ∈ Finset.range n \ s.ordered.toFinset, (dependents u).count v
  mem : ∀ v, v ∈ s.ordered ++ s.queue ↔ v < n ∧ s.indegree v = 0
  before : ∀ (l : List Nat) (v : Nat) (r : List Nat), s.ordered = l ++ v :: r →
    ∀ u < n, v ∈ dependents u → u ∈ l

theorem inv_start {indegree : Nat → Nat}
    (h : ∀ v, indegree v = ∑ u ∈ Finset.range n, (dependents u).count v) :
    Inv n dependents (start n indegree) where
  nodup := List.nodup_range.filter _
  degree v := by simpa [start] using h v
  mem v := by simp [start]
  before l v r hl := by simp [start] at hl

/-- A node of degree zero has nothing left to wait for. -/
theorem Inv.taken (h : Inv n dependents s) {u v : Nat} (hu : u < n) (hv : v ∈ dependents u)
    (hzero : s.indegree v = 0) : u ∈ s.ordered := by
  by_contra hnotin
  have hmem : u ∈ Finset.range n \ s.ordered.toFinset := by simp [hu, hnotin]
  have hle := Finset.single_le_sum (f := fun u => (dependents u).count v) (fun _ _ =>
    Nat.zero_le _) hmem
  rw [← h.degree v, hzero] at hle
  exact absurd (List.count_pos_iff.mpr hv) (Nat.not_lt.mpr hle)

theorem Inv.step (hbound : ∀ u, ∀ v ∈ dependents u, v < n) (h : Inv n dependents s) :
    Inv n dependents (step dependents s) := by
  unfold Kahn.step
  split
  next => exact h
  next u rest hqueue =>
    have hin : u ∈ s.ordered ++ s.queue := by simp [hqueue]
    obtain ⟨hu, hzero⟩ := (h.mem u).mp hin
    have hnodup := h.nodup
    rw [hqueue] at hnodup
    have hnew : u ∉ s.ordered :=
      fun hmem => (List.disjoint_of_nodup_append hnodup) hmem List.mem_cons_self
    -- the edges of `u` are those that the degrees lose
    have hsum : ∀ v, ∑ w ∈ Finset.range n \ s.ordered.toFinset,
        (dependents w).count v = (dependents u).count v +
          ∑ w ∈ Finset.range n \ (s.ordered ++ [u]).toFinset, (dependents w).count v := by
      intro v
      have hsplit : Finset.range n \ s.ordered.toFinset =
          insert u (Finset.range n \ (s.ordered ++ [u]).toFinset) := by
        ext w
        by_cases hw : w = u
        · subst hw
          simp [hu, hnew]
        · simp [hw]
      rw [hsplit, Finset.sum_insert (by simp)]
    have hcount : ∀ v, (dependents u).count v ≤ s.indegree v := fun v => by
      rw [h.degree v, hsum v]
      exact Nat.le_add_right _ _
    have hordered := ordered_foldl_follow (dependents u)
      { s with queue := rest, ordered := s.ordered ++ [u] }
    obtain ⟨hdegree, added, hadded, hnodupAdded, hmem⟩ :=
      foldl_follow (dependents u) { s with queue := rest, ordered := s.ordered ++ [u] } hcount
    dsimp only at hordered hdegree hadded
    refine ⟨?_, fun v => ?_, fun v => ?_, fun l v r' hl => ?_⟩
    · rw [hordered, hadded, List.append_assoc,
        List.singleton_append, ← List.cons_append, ← List.append_assoc]
      refine hnodup.append hnodupAdded fun v hv hv' => ?_
      -- a node that was there had degree zero, so that no edge leads to it any more
      obtain ⟨-, hvzero⟩ := (h.mem v).mp (hqueue ▸ hv)
      have := hcount v
      rw [hvzero] at this
      exact absurd (List.count_pos_iff.mpr ((hmem v).mp hv').1) (Nat.not_lt.mpr this)
    · have := hdegree v
      rw [h.degree v, hsum v] at this
      rw [hordered]
      omega
    · rw [hordered, hadded, List.append_assoc,
        List.singleton_append, ← List.cons_append, ← List.append_assoc,
        List.mem_append, ← hqueue, h.mem v, hmem v]
      have hv := hdegree v
      constructor
      · rintro (⟨hlt, hz⟩ | ⟨hdep, hz⟩)
        · exact ⟨hlt, by omega⟩
        · exact ⟨hbound u v hdep, hz⟩
      · rintro ⟨hlt, hz⟩
        by_cases hdep : v ∈ dependents u
        · exact .inr ⟨hdep, hz⟩
        · rw [List.count_eq_zero.mpr hdep] at hv
          exact .inl ⟨hlt, by omega⟩
    · rw [hordered] at hl
      intro w hw hdep
      rcases List.eq_nil_or_concat r' with rfl | ⟨r'', z, rfl⟩
      · obtain ⟨rfl, hsingle⟩ := List.append_inj' hl rfl
        obtain rfl : u = v := by simpa using hsingle
        exact h.taken hw hdep hzero
      · rw [List.concat_eq_append, ← List.cons_append, ← List.append_assoc] at hl
        exact h.before l v r'' (List.append_inj' hl rfl).1 w hw hdep

/-! ## All rounds -/

theorem Inv.run (hbound : ∀ u, ∀ v ∈ dependents u, v < n) (h : Inv n dependents s) (rounds : Nat) :
    Inv n dependents (run dependents rounds s) := by
  induction rounds generalizing s with
  | zero => exact h
  | succ rounds ih => exact ih (h.step hbound)

/-- Every round takes a node, until the queue is empty. -/
theorem length_run (dependents : Nat → List Nat) (s : State) (rounds : Nat) :
    (run dependents rounds s).queue = [] ∨
    (run dependents rounds s).ordered.length = s.ordered.length + rounds := by
  induction rounds generalizing s with
  | zero => exact .inr rfl
  | succ rounds ih =>
    rw [run]
    cases hqueue : s.queue with
    | nil =>
      have hstep : ∀ k, run dependents k s = s := by
        intro k
        induction k with
        | zero => rfl
        | succ k ih => rw [run, show step dependents s = s by rw [step, hqueue], ih]
      rw [show step dependents s = s by rw [step, hqueue], hstep]
      exact .inl hqueue
    | cons u rest =>
      have hlength : (step dependents s).ordered.length = s.ordered.length + 1 := by
        rw [step, hqueue, ordered_foldl_follow, List.length_append, List.length_singleton]
      exact (ih (step dependents s)).imp_right fun hrun => by omega

section

variable (h : Inv n dependents s)

include h

/-- The nodes fit. -/
theorem Inv.length_le : (s.ordered ++ s.queue).length ≤ n := by
  have hsub : s.ordered ++ s.queue ⊆ List.range n :=
    fun v hv => List.mem_range.mpr ((h.mem v).mp hv).1
  simpa using (h.nodup.subperm hsub).length_le

/-- As many rounds as nodes empty the queue. -/
theorem queue_run (hbound : ∀ u, ∀ v ∈ dependents u, v < n) : (run dependents n s).queue = [] := by
  rcases length_run dependents s n with hempty | hlength
  · exact hempty
  · have := (h.run hbound n).length_le
    rw [List.length_append] at this
    exact List.eq_nil_of_length_eq_zero (by omega)

/-! ## Cycles -/

/-- An edge of a node. -/
def Edge (n : Nat) (dependents : Nat → List Nat) (u v : Nat) : Prop := u < n ∧ v ∈ dependents u

/-- No path of edges leads back. -/
def Acyclic (n : Nat) (dependents : Nat → List Nat) : Prop :=
  ∀ v, ¬ Relation.TransGen (Edge n dependents) v v

/-- If every node has been taken, then edges lead forward. -/
theorem Inv.acyclic (hbound : ∀ u, ∀ v ∈ dependents u, v < n) (hall : ∀ v < n, v ∈ s.ordered) :
    Acyclic n dependents := by
  have hforward : ∀ u v, Edge n dependents u v → s.ordered.idxOf u < s.ordered.idxOf v := by
    rintro u v ⟨hu, hv⟩
    obtain ⟨l, r, hl⟩ := List.append_of_mem (hall v (hbound u v hv))
    have hin : u ∈ l := h.before l v r hl u hu hv
    have hnodup : (l ++ v :: r).Nodup := hl ▸ (List.nodup_append.mp h.nodup).1
    have hnotin : v ∉ l := fun hmem => List.disjoint_of_nodup_append hnodup hmem List.mem_cons_self
    rw [hl, List.idxOf_append_of_mem hin, List.idxOf_append_of_notMem hnotin, List.idxOf_cons_self]
    exact List.idxOf_lt_length_of_mem hin
  intro v hcycle
  have hlt : ∀ u w, Relation.TransGen (Edge n dependents) u w →
      s.ordered.idxOf u < s.ordered.idxOf w := by
    intro u w hpath
    induction hpath with
    | single he => exact hforward _ _ he
    | tail _ he ih => exact ih.trans (hforward _ _ he)
  exact lt_irrefl _ (hlt v v hcycle)

/-- If there is no cycle and the queue is empty, then every node has been taken. -/
theorem Inv.all (hqueue : s.queue = []) (hacyclic : Acyclic n dependents) :
    ∀ v < n, v ∈ s.ordered := by
  have : IsStrictOrder Nat (Relation.TransGen (Edge n dependents)) :=
    { irrefl := hacyclic, trans := fun _ _ _ => Relation.TransGen.trans }
  have hwf : (Set.Iio n).WellFoundedOn (Relation.TransGen (Edge n dependents)) :=
    (Set.finite_Iio n).wellFoundedOn
  intro v hv
  refine hwf.induction (P := fun v => v ∈ s.ordered) hv fun w hw ih => ?_
  have hzero : s.indegree w = 0 := by
    rw [h.degree w]
    refine Finset.sum_eq_zero fun u hu => List.count_eq_zero.mpr fun hdep => ?_
    obtain ⟨hu, hnotin⟩ := Finset.mem_sdiff.mp hu
    have hu := Finset.mem_range.mp hu
    exact hnotin (List.mem_toFinset.mpr (ih u hu (.single ⟨hu, hdep⟩)))
  simpa [hqueue] using (h.mem w).mpr ⟨hw, hzero⟩

theorem Inv.length_eq_iff : s.ordered.length = n ↔ ∀ v < n, v ∈ s.ordered := by
  obtain ⟨hnodup, -, -⟩ := List.nodup_append.mp h.nodup
  have hsub : s.ordered ⊆ List.range n := fun v hv =>
    List.mem_range.mpr ((h.mem v).mp (List.mem_append_left _ hv)).1
  constructor
  · intro hlength v hv
    have hperm := (hnodup.subperm hsub).perm_of_length_le (by rw [List.length_range, hlength])
    exact hperm.mem_iff.mpr (List.mem_range.mpr hv)
  · intro hall
    have hsub' : List.range n ⊆ s.ordered := fun v hv => hall v (List.mem_range.mp hv)
    have hle := (List.nodup_range.subperm hsub').length_le
    have hge := (hnodup.subperm hsub).length_le
    rw [List.length_range] at hle hge
    exact hge.antisymm hle

/-- **Every node is taken if and only if the graph has no cycle.** -/
theorem Inv.length_run_iff (hbound : ∀ u, ∀ v ∈ dependents u, v < n) :
    (Kahn.run dependents n s).ordered.length = n ↔ Acyclic n dependents := by
  have hrun := h.run hbound n
  rw [hrun.length_eq_iff]
  exact ⟨hrun.acyclic hbound, hrun.all (queue_run h hbound)⟩

end

end Keelith.Kahn

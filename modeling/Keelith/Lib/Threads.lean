import Mathlib.Algebra.BigOperators.Group.List.Basic

/-!
# Threads

The threads of a system are places in a list. What one of them holds changes when it moves
(`sum_map_set`); a property of every thread is one of the thread that moved and of the others
(`cases_set`).
-/

namespace Keelith.Threads

variable {α M : Type}

theorem cases_set {l : List α} {i j : Nat} {a b : α} (h : (l.set i a)[j]? = some b) :
    j = i ∧ b = a ∨ j ≠ i ∧ l[j]? = some b := by
  rcases eq_or_ne j i with rfl | hne
  · have hlt : j < l.length := by simpa using (List.getElem?_eq_some_iff.mp h).1
    rw [List.getElem?_set_self hlt] at h
    exact .inl ⟨rfl, (Option.some.inj h).symm⟩
  · rw [List.getElem?_set_ne hne.symm] at h
    exact .inr ⟨hne, h⟩

/-- How a sum over the threads changes when one of them moves from `a` to `b`. -/
theorem sum_map_set [AddCommMonoid M] (f : α → M) {l : List α} {i : Nat} {a : α}
    (h : l[i]? = some a) (b : α) : ((l.set i b).map f).sum + f a = (l.map f).sum + f b := by
  induction l generalizing i with
  | nil => cases h
  | cons c l ih =>
    cases i with
    | zero =>
      obtain rfl : c = a := by simpa using h
      rw [List.set_cons_zero, List.map_cons, List.map_cons, List.sum_cons, List.sum_cons,
        add_right_comm (f b), add_right_comm (f c), add_comm (f b)]
    | succ i =>
      rw [List.set_cons_succ, List.map_cons, List.map_cons, List.sum_cons, List.sum_cons, add_assoc,
        ih h, add_assoc]

end Keelith.Threads

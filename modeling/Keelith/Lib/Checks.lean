import Mathlib.Data.Bool.Basic
import Mathlib.Data.List.Forall2
import Mathlib.Data.List.Induction
import Mathlib.Data.List.Nodup

/-!
# Chains of checks

A function of the sources that returns an error is a chain of checks in `Except`. A chain that
succeeds is taken apart by `bind_eq_ok`, one check after the other, a guard by `guard_eq_ok` and a
loop by `forM_eq_ok`, `mapM_ok` or `forall₂_of_mapM`; `collect` is a loop that checks each item
against those before. `ok_bind` runs a check. What a search finds in a list that a loop made is what
it finds in the list that the loop went through (`find?_forall₂`).
-/

namespace Keelith

variable {ε α β : Type}

@[simp] theorem ok_bind (a : α) (f : α → Except ε β) : (.ok a >>= f) = f a := rfl

variable {b : β} {f : α → Except ε β} {l : List α}

theorem bind_eq_ok {x : Except ε α} : (x >>= f) = .ok b ↔ ∃ a, x = .ok a ∧ f a = .ok b := by
  cases x with
  | error err => simp [bind, Except.bind]
  | ok a => simp

theorem bind_unit_eq_ok {x : Except ε Unit} {f : Unit → Except ε β} :
    (x >>= f) = .ok b ↔ x = .ok () ∧ f () = .ok b := by
  rw [bind_eq_ok]
  exact ⟨fun ⟨(), h⟩ => h, fun h => ⟨(), h⟩⟩

theorem guard_eq_ok {p : Prop} [Decidable p] {err : ε} {x : Except ε β} :
    (if p then .error err else x) = .ok b ↔ ¬ p ∧ x = .ok b := by
  by_cases h : p <;> simp [h]

/-- A loop of checks. -/
theorem forM_eq_ok {f : α → Except ε Unit} : l.forM f = .ok () ↔ ∀ x ∈ l, f x = .ok () := by
  induction l with
  | nil => exact ⟨fun _ _ hx => absurd hx List.not_mem_nil, fun _ => rfl⟩
  | cons x l ih =>
    change (f x >>= fun _ => l.forM f) = .ok () ↔ _
    rw [bind_eq_ok, List.forall_mem_cons]
    constructor
    · rintro ⟨⟨⟩, hx, hl⟩
      exact ⟨hx, ih.mp hl⟩
    · rintro ⟨hx, hl⟩
      exact ⟨(), hx, ih.mpr hl⟩

/-- A loop that computes a list, if no step fails. -/
theorem mapM_ok (h : ∀ x ∈ l, ∃ y, f x = .ok y) : ∃ ys, l.mapM f = .ok ys ∧ ys.length = l.length ∧
      ∀ (i : Nat) (x : α) (y : β), l[i]? = some x → f x = .ok y → ys[i]? = some y := by
  induction l with
  | nil => exact ⟨[], rfl, rfl, fun i x y hx => by simp at hx⟩
  | cons x l ih =>
    obtain ⟨y, hy⟩ := h x List.mem_cons_self
    obtain ⟨ys, hys, hlength, hget⟩ := ih fun z hz => h z (List.mem_cons_of_mem x hz)
    refine ⟨y :: ys, ?_, by simp [hlength], fun i z w hz hw => ?_⟩
    · rw [List.mapM_cons]
      exact bind_eq_ok.mpr ⟨y, hy, bind_eq_ok.mpr ⟨ys, hys, rfl⟩⟩
    · cases i with
      | zero =>
        obtain rfl : x = z := by simpa using hz
        exact congrArg some (Except.ok.inj (hy.symm.trans hw))
      | succ i => exact hget i z w (by simpa using hz) hw

/-- A loop that checks an item against those before and keeps what it makes of it. -/
def collect (check : List β → α → Except ε Unit) (f : α → β) (acc : List β) :
    List α → Except ε (List β)
  | [] => .ok acc
  | x :: rest => do
    check acc x
    collect check f (acc ++ [f x]) rest

/-- A sorted list in which neighbours differ is strictly sorted. -/
theorem pairwise_of_chain {R S T : α → α → Prop} (htrans : ∀ {a b c}, T a b → T b c → T a c)
    (hle : l.Pairwise R) (hne : l.IsChain S) (h : ∀ a b, R a b → S a b → T a b) : l.Pairwise T := by
  have : Trans T T T := ⟨htrans⟩
  rw [← List.isChain_iff_pairwise, List.isChain_iff_getElem]
  exact fun i hi => h _ _ (List.isChain_iff_getElem.mp hle.isChain i hi)
    (List.isChain_iff_getElem.mp hne i hi)

/-! ## Lists made item by item -/

theorem find?_forall₂ {R : α → β → Prop} {p : α → Bool} {q : β → Bool} {m : List β}
    (h : List.Forall₂ R l m) (hpq : ∀ x y, R x y → p x = q y) :
    Option.Rel (fun x y => R x y ∧ p x = true) (l.find? p) (m.find? q) := by
  induction h with
  | nil => exact .none
  | @cons x y l m hxy hrest ih =>
    rw [List.find?_cons, List.find?_cons, ← hpq x y hxy]
    cases hx : p x with
    | true => exact .some ⟨hxy, hx⟩
    | false => exact ih

theorem lookup_eq_find? [BEq α] (k : α) (l : List (α × β)) :
    l.lookup k = (l.find? fun p => k == p.1).map Prod.snd := by
  induction l with
  | nil => rfl
  | cons p l ih =>
    rw [List.lookup_cons]
    split <;> simp_all

theorem mem_of_lookup [BEq α] [LawfulBEq α] {l : List (α × β)} {k : α} (h : l.lookup k = some b) :
    (k, b) ∈ l := by
  obtain ⟨before, after, rfl, -⟩ := List.lookup_eq_some_iff.mp h
  simp

end Keelith

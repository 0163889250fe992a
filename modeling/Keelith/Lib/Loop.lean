import Mathlib.Data.Option.Basic

/-!
# Loops

A `for` loop with a condition is its body: a function from the state of the loop to the next state,
or to the result with which the loop ends. `run` executes at most `fuel` iterations.

* `Terminating`: a measure that each repeating iteration makes smaller. `eval` is the loop itself,
  without fuel.
* `eval_eq` unfolds one iteration; `eval_spec` is the rule for invariants.
-/

namespace Keelith.Loop

variable {σ ρ : Type*} (body : σ → σ ⊕ ρ)

/-- The loop, for at most `fuel` iterations. -/
def run : Nat → σ → Option ρ
  | 0, _ => none
  | fuel + 1, s =>
    match body s with
    | .inl s' => run fuel s'
    | .inr r => some r

variable {body}

theorem run_mono {fuel fuel' : Nat} {s : σ} {r : ρ} (h : run body fuel s = some r)
    (hle : fuel ≤ fuel') : run body fuel' s = some r := by
  induction fuel generalizing fuel' s with
  | zero => cases h
  | succ fuel ih =>
    obtain ⟨n, rfl⟩ : ∃ n, fuel' = n + 1 := ⟨fuel' - 1, by omega⟩
    simp only [run] at h ⊢
    cases hb : body s with
    | inl s' =>
      rw [hb] at h
      exact ih h (by omega)
    | inr r' =>
      rw [hb] at h
      exact h

variable (body)

/-- A loop that ends from every state. -/
structure Terminating where
  measure : σ → Nat
  decreases : ∀ s s', body s = .inl s' → measure s' < measure s

variable {body} (t : Terminating body)

namespace Terminating

theorem run_isSome (s : σ) {fuel : Nat} (h : t.measure s < fuel) : (run body fuel s).isSome := by
  induction fuel generalizing s with
  | zero => omega
  | succ fuel ih =>
    simp only [run]
    cases hb : body s with
    | inl s' =>
      have := t.decreases s s' hb
      exact ih s' (by omega)
    | inr r => rfl

end Terminating

/-- The result of the loop. -/
def eval (s : σ) : ρ := (run body (t.measure s + 1) s).get (t.run_isSome s (by omega))

theorem run_eq_eval (s : σ) {fuel : Nat} (h : t.measure s < fuel) :
    run body fuel s = some (eval t s) := by
  have hrun : run body (t.measure s + 1) s = some (eval t s) := by simp [eval]
  exact run_mono hrun (by omega)

/-- One iteration. -/
theorem eval_eq (s : σ) :
    eval t s = match body s with
      | .inl s' => eval t s'
      | .inr r => r := by
  apply Option.some.inj
  rw [← run_eq_eval t s (Nat.lt_succ_self _), run]
  cases hb : body s with
  | inl s' => exact run_eq_eval t s' (t.decreases s s' hb)
  | inr r => rfl

/-- **The rule for invariants.** -/
theorem eval_spec (I : σ → Prop) (post : ρ → Prop)
    (hstep : ∀ s s', I s → body s = .inl s' → I s')
    (hexit : ∀ s r, I s → body s = .inr r → post r) {s : σ} (hs : I s) : post (eval t s) := by
  induction hm : t.measure s using Nat.strongRecOn generalizing s with
  | ind n ih =>
    subst hm
    rw [eval_eq]
    cases hb : body s with
    | inl s' => exact ih _ (t.decreases s s' hb) (hstep s s' hs hb) rfl
    | inr r => exact hexit s r hs hb

end Keelith.Loop

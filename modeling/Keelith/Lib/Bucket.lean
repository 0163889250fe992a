import Mathlib.Algebra.Order.Field.Basic
import Mathlib.Tactic.Linarith

/-!
# Token buckets

A bucket of size `burst` that is filled at `rate`, over an ordered field; `times` are the times at
which tokens were taken.

* `Bounded`: in every interval of length `d` at most `burst + rate * d` tokens were taken.
* `Filled`: what the tokens that are left say about the past. For every start `a`, the tokens taken
  since `a` and those that are left are at most what the bucket could hold at `a` and what came in
  since.

Filling keeps `Filled`; taking a token keeps `Filled` and `Bounded`.
-/

namespace Keelith.Bucket

/-! ## Counts -/

section Count

variable {K : Type} [LinearOrder K] {last : K} {times : List K}

/-- The number of times in the interval. -/
def countIn (times : List K) (a b : K) : Nat := times.countP fun t => decide (a ≤ t ∧ t ≤ b)

theorem countIn_nil (a b : K) : countIn [] a b = 0 := rfl

theorem countIn_eq_zero {a b : K} (h : ∀ t ∈ times, t < a) : countIn times a b = 0 := by
  refine List.countP_eq_zero.mpr fun t ht => ?_
  simp only [decide_eq_true_eq, not_and]
  exact fun ha => absurd ha (not_le.mpr (h t ht))

/-- Later times do not count. -/
theorem countIn_of_past {a b : K} (h : ∀ t ∈ times, t ≤ last) (hb : last ≤ b) :
    countIn times a b = countIn times a last := by
  refine List.countP_congr fun t ht => ?_
  simp only [decide_eq_true_eq]
  exact ⟨fun hin => ⟨hin.1, h t ht⟩, fun hin => ⟨hin.1, hin.2.trans hb⟩⟩

theorem countIn_snoc (times : List K) (t a b : K) :
    countIn (times ++ [t]) a b = countIn times a b + if a ≤ t ∧ t ≤ b then 1 else 0 := by
  unfold countIn
  rw [List.countP_append, List.countP_singleton]
  simp

end Count

/-! ## Buckets -/

variable {K : Type} [Field K] [LinearOrder K] [IsStrictOrderedRing K] {burst rate tokens last : K}
  {times : List K}

/-- No interval has more tokens than the bucket allows. -/
def Bounded (burst rate : K) (times : List K) : Prop :=
  ∀ a b, a ≤ b → (countIn times a b : K) ≤ burst + rate * (b - a)

/-- What the bucket says about the tokens that were taken. -/
structure Filled (burst rate : K) (times : List K) (tokens last : K) : Prop where
  le_burst : tokens ≤ burst
  past : ∀ t ∈ times, t ≤ last
  spent : ∀ a ≤ last, (countIn times a last : K) + tokens ≤ burst + rate * (last - a)

theorem bounded_nil (hburst : 0 ≤ burst) (hrate : 0 ≤ rate) : Bounded burst rate [] := by
  intro a b hab
  have hfill : 0 ≤ rate * (b - a) := mul_nonneg hrate (sub_nonneg.mpr hab)
  rw [countIn_nil, Nat.cast_zero]
  linarith

/-- A full bucket from which nothing was taken. -/
theorem filled_nil (hrate : 0 ≤ rate) : Filled burst rate [] burst last where
  le_burst := le_refl _
  past := nofun
  spent := by
    intro a ha
    have hfill : 0 ≤ rate * (last - a) := mul_nonneg hrate (sub_nonneg.mpr ha)
    rw [countIn_nil, Nat.cast_zero]
    linarith

/-- The bucket is filled for a time that is not longer than the one that has passed. -/
theorem Filled.refill (h : Filled burst rate times tokens last) (hrate : 0 ≤ rate) {now elapsed : K}
    (hnow : last ≤ now) (helapsed : elapsed ≤ now - last) :
    Filled burst rate times (min burst (tokens + elapsed * rate)) now where
  le_burst := min_le_left _ _
  past := fun t ht => (h.past t ht).trans hnow
  spent := by
    intro a ha
    rcases le_or_gt a last with hle | hlt
    · -- the interval starts before the last use of the bucket
      have hspent := h.spent a hle
      have hfill : elapsed * rate ≤ (now - last) * rate := mul_le_mul_of_nonneg_right helapsed hrate
      have hmin := min_le_right burst (tokens + elapsed * rate)
      rw [countIn_of_past h.past hnow]
      linarith
    · have hfill : 0 ≤ rate * (now - a) := mul_nonneg hrate (sub_nonneg.mpr ha)
      have hmin := min_le_left burst (tokens + elapsed * rate)
      rw [countIn_eq_zero fun t ht => (h.past t ht).trans_lt hlt, Nat.cast_zero]
      linarith

/-- A token is taken. -/
theorem Filled.take (h : Filled burst rate times tokens last) :
    Filled burst rate (times ++ [last]) (tokens - 1) last where
  le_burst := (sub_le_self _ zero_le_one).trans h.le_burst
  past := by
    intro t ht
    rcases List.mem_append.mp ht with ht | ht
    · exact h.past t ht
    · exact (List.mem_singleton.mp ht).le
  spent := by
    intro a ha
    have hspent := h.spent a ha
    rw [countIn_snoc, if_pos ⟨ha, le_refl _⟩, Nat.cast_add, Nat.cast_one]
    linarith

/-- A token that was there is taken. -/
theorem Bounded.take (hbounded : Bounded burst rate times) (h : Filled burst rate times tokens last)
    (hrate : 0 ≤ rate) (htoken : 1 ≤ tokens) : Bounded burst rate (times ++ [last]) := by
  intro a b hab
  rw [countIn_snoc]
  split
  next hin =>
    have hspent := h.spent a hin.1
    have hfill : rate * (last - a) ≤ rate * (b - a) :=
      mul_le_mul_of_nonneg_left (by linarith [hin.2]) hrate
    rw [countIn_of_past h.past hin.2, Nat.cast_add, Nat.cast_one]
    linarith
  next => exact hbounded a b hab

end Keelith.Bucket

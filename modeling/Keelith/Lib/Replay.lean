import Mathlib.Data.List.Infix

/-!
# Replaying a log

A replica of a deterministic object applies the entries of the object's log, in order and without
holes. Over an arbitrary state `σ` and arbitrary entries `δ`:

* `Replay.state`: the state after the first `n` entries.
* `Replay.Next log n d`: the entry `d` takes the state after `n` entries to the one after `n + 1`.
-/

namespace Keelith.Replay

variable {σ δ : Type} (apply : σ → δ → σ) (init : σ)

/-- The state after the first `n` entries of the log. -/
def state (log : List δ) (n : Nat) : σ := (log.take n).foldl apply init

/-- The entry after the first `n`. -/
def Next (log : List δ) (n : Nat) (d : δ) : Prop := log[n]? = some d

variable {apply init} {log : List δ} {n : Nat} {d : δ} {l : List δ}

theorem state_snoc : state apply init (log ++ [d]) (log.length + 1) =
    apply (state apply init log log.length) d := by
  have htake : (log ++ [d]).take (log.length + 1) = log ++ [d] :=
    List.take_of_length_le (by simp)
  rw [state, state, htake, List.take_length, List.foldl_append]
  rfl

end Keelith.Replay

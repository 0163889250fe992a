import Keelith.Lib.Checks
import Keelith.Lib.Bytes
import Mathlib.Algebra.Order.Field.Rat
import Mathlib.Data.List.Sort
import Mathlib.Order.Interval.Finset.Nat
import Mathlib.Order.WithBot
import Mathlib.Tactic.Positivity

/-!
# Traffic weights

`programmable/topology/traffic.go`: how new calls are divided among epochs.

- **The table** (`TrafficTable`): what `NewTrafficSelector` admits, sorted by epoch, 10,000 basis
  points in total. The counter of the empty key (`rotation`) is a `uint64` that wraps.
- **Selection**: an empty key takes the slot of the counter in the table (`selectBucket`); another
  key takes the epoch with the smallest score (`selectRendezvous`). The score is
  `-math.Log(unit) / float64(weight)`, a finite number for a unit in (0, 1] (`rendezvousUnit_pos`,
  `rendezvousUnit_le_one`) and a positive weight; the development holds for every such function
  (`score`). The start value of the loop is `+Inf`, `⊤` here.

`select_positive`: a selection is an epoch of the table with a positive weight.
-/

namespace Keelith.Topology

instance total_le : Std.Total fun a b : UInt64 => a ≤ b := ⟨UInt64.le_total⟩

instance trans_le : IsTrans UInt64 fun a b => a ≤ b := ⟨fun _ _ _ => UInt64.le_trans⟩

instance antisymm_le : Std.Antisymm fun a b : UInt64 => a ≤ b := ⟨fun _ _ => UInt64.le_antisymm⟩

def totalBasisPoints : Nat := 10000

def maximumTrafficEpochs : Nat := 64

/-- `EpochWeight`. -/
structure EpochWeight where
  epoch : UInt64
  basisPoints : UInt16
  deriving DecidableEq

/-- `ErrInvalidTraffic`, with its text where it has one. -/
inductive TrafficError where
  | invalid
  | total (total : Nat)
  deriving DecidableEq

/-- The sum of the weights. -/
def weightSum (weights : List EpochWeight) : Nat :=
  (weights.map fun weight => weight.basisPoints.toNat).sum

/-- The weights of a selector, as `NewTrafficSelector` admits them. -/
structure TrafficTable where
  weights : List EpochWeight
  sorted : weights.Pairwise fun first second => first.epoch < second.epoch
  nonzero : ∀ weight ∈ weights, weight.epoch ≠ 0
  total : weightSum weights = totalBasisPoints

/-- `TrafficSelector`. -/
structure TrafficSelector extends TrafficTable where
  rotation : UInt64

/-- `sort.Slice` by epoch. -/
def sortWeights (weights : List EpochWeight) : List EpochWeight :=
  weights.insertionSort fun first second => first.epoch ≤ second.epoch

/-- The loop of `NewTrafficSelector`: no epoch is zero or the one before. -/
def checkWeights : Option UInt64 → List EpochWeight → Bool
  | _, [] => true
  | previous, weight :: rest =>
    weight.epoch != 0 && previous != some weight.epoch && checkWeights (some weight.epoch) rest

instance : Std.Total fun first second : EpochWeight => first.epoch ≤ second.epoch :=
  ⟨fun first second => UInt64.le_total first.epoch second.epoch⟩

instance : IsTrans EpochWeight fun first second => first.epoch ≤ second.epoch :=
  ⟨fun _ _ _ => UInt64.le_trans⟩

variable {previous : Option UInt64} {weights : List EpochWeight}

theorem checkWeights_nonzero
    (h : checkWeights previous weights = true) : ∀ weight ∈ weights, weight.epoch ≠ 0 := by
  induction weights generalizing previous with
  | nil => intro weight hmem; cases hmem
  | cons weight rest ih =>
    simp only [checkWeights, Bool.and_eq_true, bne_iff_ne] at h
    exact List.forall_mem_cons.mpr ⟨h.1.1, ih h.2⟩

theorem checkWeights_chain (h : checkWeights previous weights = true) :
    (previous.toList ++ weights.map EpochWeight.epoch).IsChain (· ≠ ·) := by
  induction weights generalizing previous with
  | nil => cases previous <;> simp
  | cons weight rest ih =>
    simp only [checkWeights, Bool.and_eq_true, bne_iff_ne] at h
    cases previous with
    | none => exact ih h.2
    | some epoch => exact List.isChain_cons_cons.mpr ⟨fun heq => h.1.2 (congrArg some heq), ih h.2⟩

theorem checkWeights_sorted (h : checkWeights none weights = true)
    (hsorted : weights.Pairwise fun first second => first.epoch ≤ second.epoch) :
    weights.Pairwise fun first second => first.epoch < second.epoch := by
  exact pairwise_of_chain UInt64.lt_trans hsorted ((List.isChain_map _).mp (checkWeights_chain h))
    fun _ _ =>
    UInt64.lt_of_le_of_ne

def newTrafficSelector (weights : List EpochWeight) : Except TrafficError TrafficSelector :=
  if weights.length = 0 ∨ weights.length > maximumTrafficEpochs then .error .invalid
  else
    let cloned := sortWeights weights
    if hcheck : checkWeights none cloned = true then
      if htotal : cloned.any (fun weight => weight.basisPoints != 0) = true ∧
          weightSum cloned = totalBasisPoints then
        .ok { weights := cloned,
              sorted := checkWeights_sorted hcheck (List.pairwise_insertionSort _ _),
              nonzero := checkWeights_nonzero hcheck,
              total := htotal.2,
              rotation := 0 }
      else .error (.total (weightSum cloned))
    else .error .invalid

/-! ## Selection -/

/-- The loop of `selectBucket`. -/
def bucketEpoch (bucket : Nat) : Nat → List EpochWeight → Option UInt64
  | _, [] => none
  | cumulative, weight :: rest =>
    let cumulative := cumulative + weight.basisPoints.toNat
    if bucket < cumulative then some weight.epoch else bucketEpoch bucket cumulative rest

def TrafficTable.selectBucket (table : TrafficTable) (bucket : Nat) : UInt64 :=
  (bucketEpoch bucket 0 table.weights).getD ((table.weights.getLast?.map EpochWeight.epoch).getD 0)

/-- The hash of `rendezvousUnit`. -/
def rendezvousHash (key : Bytes) (epoch : UInt64) : UInt64 :=
  let hash := key.foldl (fun hash byte => (hash ^^^ byte.toUInt64) * 1099511628211)
    14695981039346656037
  let hash := hash ^^^ epoch * 0x9e3779b97f4a7c15
  let hash := (hash ^^^ hash >>> 30) * 0xbf58476d1ce4e5b9
  let hash := (hash ^^^ hash >>> 27) * 0x94d049bb133111eb
  hash ^^^ hash >>> 31

/-- `rendezvousUnit`. The constant `float64(1<<53) + 1` is rounded to `1<<53`, and the quotient by
it is exact. -/
def rendezvousUnit (key : Bytes) (epoch : UInt64) : ℚ :=
  ((rendezvousHash key epoch >>> 11).toNat + 1) / 2 ^ 53

theorem rendezvousUnit_pos (key : Bytes) (epoch : UInt64) : 0 < rendezvousUnit key epoch := by
  unfold rendezvousUnit
  positivity

theorem rendezvousUnit_le_one (key : Bytes) (epoch : UInt64) : rendezvousUnit key epoch ≤ 1 := by
  have hlt : (rendezvousHash key epoch >>> 11).toNat + 1 ≤ 2 ^ 53 := by
    have hword := (rendezvousHash key epoch).toNat_lt
    rw [UInt64.toNat_shiftRight, show (11 : UInt64).toNat % 64 = 11 from rfl]
    omega
  rw [rendezvousUnit, div_le_one (by positivity)]
  exact_mod_cast hlt

section

variable (score : ℚ → UInt16 → ℚ)

/-- The loop of `selectRendezvous`: the epoch that is selected and its score. -/
def rendezvousStep (key : Bytes) (state : UInt64 × WithTop ℚ) (weight : EpochWeight) :
    UInt64 × WithTop ℚ :=
  if weight.basisPoints = 0 then state
  else
    let value : WithTop ℚ := score (rendezvousUnit key weight.epoch) weight.basisPoints
    if value < state.2 ∨ value = state.2 ∧ weight.epoch < state.1 then (weight.epoch,
      value) else state

def TrafficTable.selectRendezvous (table : TrafficTable) (key : Bytes) : UInt64 :=
  (table.weights.foldl (rendezvousStep score key) (0, ⊤)).1

/-- `Select`: the epoch, and the selector with its counter. -/
def TrafficSelector.select (ts : TrafficSelector) (key : Bytes) :
    Except TrafficError UInt64 × TrafficSelector :=
  if ts.weights = [] then (.error .invalid, ts)
  else if key = [] then
    (.ok (ts.selectBucket (ts.rotation.toNat % totalBasisPoints)),
      { ts with rotation := ts.rotation + 1 })
  else (.ok (ts.selectRendezvous score key), ts)

end

/-- `BasisPoints`: the weight of an epoch, zero if it is not in the table. `sort.Search` finds the
first entry that is not smaller. -/
def TrafficTable.basisPoints (table : TrafficTable) (epoch : UInt64) : UInt16 :=
  match table.weights.find? fun weight => epoch ≤ weight.epoch with
  | some weight => if weight.epoch = epoch then weight.basisPoints else 0
  | none => 0

/-! ## What is selected -/

/-- A weight of the table is what `BasisPoints` finds. -/
theorem TrafficTable.basisPoints_eq (table : TrafficTable) {weight : EpochWeight}
    (h : weight ∈ table.weights) : table.basisPoints weight.epoch = weight.basisPoints := by
  have hfind : table.weights.find? (fun other => weight.epoch ≤ other.epoch) = some weight := by
    obtain ⟨before, after, heq⟩ := List.append_of_mem h
    have hsorted := table.sorted
    rw [heq, List.pairwise_append] at hsorted
    rw [heq, List.find?_append, List.find?_eq_none.mpr, Option.none_or, List.find?_cons_of_pos]
    · exact decide_eq_true (UInt64.le_refl _)
    · intro other hother hle
      have hlt := hsorted.2.2 other hother weight List.mem_cons_self
      exact UInt64.not_lt.mpr (of_decide_eq_true hle) hlt
  simp only [basisPoints, hfind, ↓reduceIte]

/-- An epoch that `BasisPoints` gives a weight has it in the table. -/
theorem TrafficTable.mem_of_basisPoints (table : TrafficTable) {epoch : UInt64}
    (h : table.basisPoints epoch ≠ 0) :
    ∃ weight ∈ table.weights, weight.epoch = epoch ∧ weight.basisPoints ≠ 0 := by
  unfold basisPoints at h
  split at h
  next weight hfind =>
    split at h
    next heq => exact ⟨weight, List.mem_of_find?_eq_some hfind, heq, h⟩
    next => exact absurd rfl h
  next => exact absurd rfl h

theorem bucketEpoch_mem {bucket cumulative : Nat}
    (hlow : cumulative ≤ bucket) (hhigh : bucket < cumulative + weightSum weights) :
    ∃ weight ∈ weights, weight.basisPoints ≠ 0 ∧
      bucketEpoch bucket cumulative weights = some weight.epoch := by
  induction weights generalizing cumulative with
  | nil =>
    rw [show weightSum [] = 0 from rfl] at hhigh
    omega
  | cons weight rest ih =>
    have hsum : weightSum (weight :: rest) = weight.basisPoints.toNat + weightSum rest := rfl
    simp only [bucketEpoch]
    split
    next hlt =>
      refine ⟨weight, List.mem_cons_self, fun hzero => ?_, rfl⟩
      rw [hzero, UInt16.toNat_zero] at hlt
      omega
    next hle =>
      have hlow' : cumulative + weight.basisPoints.toNat ≤ bucket := by omega
      obtain ⟨other, hmem, hpositive, heq⟩ := ih hlow' (by omega)
      exact ⟨other, List.mem_cons_of_mem _ hmem, hpositive, heq⟩

/-- A slot of the table. -/
theorem TrafficTable.selectBucket_mem (table : TrafficTable) {bucket : Nat}
    (h : bucket < totalBasisPoints) :
    ∃ weight ∈ table.weights, weight.basisPoints ≠ 0 ∧
      bucketEpoch bucket 0 table.weights = some weight.epoch ∧
      table.selectBucket bucket = weight.epoch := by
  obtain ⟨weight, hmem, hweight, heq⟩ := bucketEpoch_mem (Nat.zero_le bucket) (by rwa [table.total])
  exact ⟨weight, hmem, hweight, heq, by rw [selectBucket, heq, Option.getD_some]⟩

/-- The loop of `selectRendezvous` keeps an epoch with a positive weight, and has one after the
first. -/
theorem foldl_rendezvousStep {score : ℚ → UInt16 → ℚ} {key : Bytes}
    {state : UInt64 × WithTop ℚ} {P : UInt64 → Prop}
    (hstate : state.2 = ⊤ ∨ P state.1)
    (hweights : ∀ weight ∈ weights, weight.basisPoints ≠ 0 → P weight.epoch)
    (hsome : state.2 = ⊤ → ∃ weight ∈ weights, weight.basisPoints ≠ 0) :
    P (weights.foldl (rendezvousStep score key) state).1 := by
  induction weights generalizing state with
  | nil =>
    refine hstate.resolve_left fun htop => ?_
    obtain ⟨_, hmem, -⟩ := hsome htop
    cases hmem
  | cons weight rest ih =>
    obtain ⟨hweight, hrest⟩ := List.forall_mem_cons.mp hweights
    rw [List.foldl_cons]
    by_cases hzero : weight.basisPoints = 0
    · have hsame : rendezvousStep score key state weight = state := if_pos hzero
      rw [hsame]
      refine ih hstate hrest fun htop => ?_
      obtain ⟨other, hmem, hpositive⟩ := hsome htop
      rcases List.mem_cons.mp hmem with rfl | hmem
      · exact absurd hzero hpositive
      · exact ⟨other, hmem, hpositive⟩
    · -- from here on the score is a number, so the epoch is one of the table
      have hnext : (rendezvousStep score key state weight).2 ≠ ⊤ ∧
          P (rendezvousStep score key state weight).1 := by
        unfold rendezvousStep
        rw [if_neg hzero]
        dsimp only
        split
        · exact ⟨WithTop.coe_ne_top, hweight hzero⟩
        next hnot =>
          have hfinite : state.2 ≠ ⊤ := fun htop => by
            rw [htop] at hnot
            exact hnot (.inl (WithTop.coe_lt_top _))
          exact ⟨hfinite, hstate.resolve_left hfinite⟩
      exact ih (.inr hnext.2) hrest fun htop => absurd htop hnext.1

theorem TrafficTable.exists_positive (table : TrafficTable) :
    ∃ weight ∈ table.weights, weight.basisPoints ≠ 0 := by
  obtain ⟨weight, hmem, hpositive, -⟩ :=
    table.selectBucket_mem (show 0 < totalBasisPoints by decide)
  exact ⟨weight, hmem, hpositive⟩

/-- **A selection succeeds**, with an epoch that has a positive weight. -/
theorem TrafficSelector.select_positive (score : ℚ → UInt16 → ℚ) (ts : TrafficSelector)
    (key : Bytes) : ∃ epoch, (ts.select score key).1 = .ok epoch ∧ ts.basisPoints epoch ≠ 0 ∧
      (ts.select score key).2.toTrafficTable = ts.toTrafficTable := by
  obtain ⟨positive, hmem, hpositive⟩ := ts.exists_positive
  have hof {weight : EpochWeight} (hmem : weight ∈ ts.weights) (hweight : weight.basisPoints ≠ 0) :
      ts.basisPoints weight.epoch ≠ 0 := by
    rw [ts.basisPoints_eq hmem]
    exact hweight
  unfold select
  rw [if_neg (List.ne_nil_of_mem hmem)]
  split
  · obtain ⟨weight, hmem, hweight, -, heq⟩ :=
      ts.selectBucket_mem (Nat.mod_lt ts.rotation.toNat (by decide))
    exact ⟨weight.epoch, congrArg Except.ok heq, hof hmem hweight, rfl⟩
  · refine ⟨_, rfl, ?_, rfl⟩
    exact foldl_rendezvousStep (P := fun epoch => ts.basisPoints epoch ≠ 0) (.inl rfl)
      (fun _ hmem hweight => hof hmem hweight) fun _ => ⟨positive, hmem, hpositive⟩

/-! ## Draws of the empty key -/

/-- The results of the calls with the empty key among the calls of any number of callers, in the
order of the counter. -/
def TrafficSelector.draws (score : ℚ → UInt16 → ℚ) (ts : TrafficSelector) :
    List Bytes → List (Except TrafficError UInt64)
  | [] => []
  | key :: keys =>
    let rest := TrafficSelector.draws score (ts.select score key).2 keys
    if key = [] then (ts.select score key).1 :: rest else rest

/-- An epoch of the table has as many slots as basis points. -/
theorem countP_bucketEpoch
    (hsorted : weights.Pairwise fun first second => first.epoch < second.epoch)
    {weight : EpochWeight} (h : weight ∈ weights) (cumulative : Nat) :
    (List.range' cumulative (weightSum weights)).countP (bucketEpoch · cumulative weights =
      some weight.epoch) = weight.basisPoints.toNat := by
  induction weights generalizing cumulative with
  | nil => cases h
  | cons first rest ih =>
    obtain ⟨hlt, hsorted⟩ := List.pairwise_cons.mp hsorted
    have hsum : weightSum (first :: rest) = first.basisPoints.toNat + weightSum rest := rfl
    have hfirst bucket (hb : bucket ∈ List.range' cumulative first.basisPoints.toNat) :
        bucketEpoch bucket cumulative (first :: rest) = some first.epoch :=
          if_pos (List.mem_range'_1.mp hb).2
    have hrest bucket (hb : bucket ∈ List.range' (cumulative + first.basisPoints.toNat)
      (weightSum rest)) :
        bucketEpoch bucket cumulative (first :: rest) =
          bucketEpoch bucket (cumulative + first.basisPoints.toNat) rest :=
      if_neg (Nat.not_lt.mpr (List.mem_range'_1.mp hb).1)
    rw [hsum, ← List.range'_append_1, List.countP_append]
    rcases List.mem_cons.mp h with rfl | h
    · rw [List.countP_eq_length.mpr fun bucket hb => decide_eq_true (hfirst bucket hb),
        List.length_range', List.countP_eq_zero.mpr, Nat.add_zero]
      intro bucket hb
      obtain ⟨other, hmem, -, heq⟩ :=
        bucketEpoch_mem (List.mem_range'_1.mp hb).1 (List.mem_range'_1.mp hb).2
      rw [hrest bucket hb, heq, decide_eq_true_eq, Option.some_inj]
      exact (UInt64.ne_of_lt (hlt other hmem)).symm
    · rw [List.countP_eq_zero.mpr, Nat.zero_add, List.countP_congr fun bucket hb => by
        rw [hrest bucket hb]]
      · exact ih hsorted h _
      · intro bucket hb
        rw [hfirst bucket hb, decide_eq_true_eq, Option.some_inj]
        exact UInt64.ne_of_lt (hlt weight h)

/-- A window of a counter takes every residue once. -/
theorem countP_range'_mod (p : Nat → Bool) (start size : Nat) :
    (List.range' start size).countP (fun n => p (n % size)) = (List.range size).countP p := by
  have hmod := Nat.multiset_Ico_map_mod start size
  rw [Multiset.Ico, Nat.Ico_eq_range', Nat.add_sub_cancel_left] at hmod
  rw [← (Multiset.coe_eq_coe.mp hmod).countP_eq, List.countP_map]
  rfl

variable (score : ℚ → UInt16 → ℚ) (ts : TrafficSelector) (keys : List Bytes)

/-- A draw takes the slot of the counter. -/
theorem TrafficSelector.draws_eq :
    ts.draws score keys = (List.range (keys.count [])).map fun n =>
      .ok (ts.selectBucket ((ts.rotation + .ofNat n).toNat % totalBasisPoints)) := by
  induction keys generalizing ts with
  | nil => rfl
  | cons key keys ih =>
    obtain ⟨positive, hmem, -⟩ := ts.exists_positive
    have hne := List.ne_nil_of_mem hmem
    by_cases hkey : key = []
    · subst hkey
      have hnext (n : Nat) : ts.rotation + 1 + .ofNat n = ts.rotation + .ofNat (n + 1) := by
        rw [UInt64.ofNat_add, UInt64.add_assoc, UInt64.add_comm 1]
        rfl
      rw [draws, select, if_neg hne, ih, List.count_cons_self,
        List.range_succ_eq_map]
      simp [hnext]
    · rw [draws, if_neg hkey, select, if_neg hne, if_neg hkey, List.count_cons_of_ne hkey]
      exact ih ts

/-- **The split is exact**: no epoch without a weight is drawn, and 10,000 draws without a wrap of
the counter, with calls for other keys between them, take each epoch as often as its basis
points. -/
theorem TrafficSelector.draws_exact :
    (∀ epoch, .ok epoch ∈ ts.draws score keys → ts.basisPoints epoch ≠ 0) ∧
      (keys.count [] = totalBasisPoints → ts.rotation.toNat + totalBasisPoints ≤ 2 ^ 64 →
        ∀ epoch, (ts.draws score keys).count (.ok epoch) = (ts.basisPoints epoch).toNat) := by
  have hpositive epoch (hm : .ok epoch ∈ ts.draws score keys) : ts.basisPoints epoch ≠ 0 := by
    rw [draws_eq] at hm
    obtain ⟨n, -, heq⟩ := List.mem_map.mp hm
    obtain ⟨weight, hmem, hweight, -, hselect⟩ := ts.selectBucket_mem (Nat.mod_lt _ (by decide))
    rw [← Except.ok.inj heq, hselect, ts.basisPoints_eq hmem]
    exact hweight
  refine ⟨hpositive, fun hcount hwrap epoch => ?_⟩
  by_cases hzero : ts.basisPoints epoch = 0
  · rw [List.count_eq_zero.mpr fun hm => hpositive epoch hm hzero, hzero, UInt16.toNat_zero]
  obtain ⟨weight, hmem, rfl, -⟩ := ts.mem_of_basisPoints hzero
  rw [ts.basisPoints_eq hmem, ← countP_bucketEpoch ts.sorted hmem 0, ts.total, draws_eq,
    hcount, ← List.range_eq_range',
    ← countP_range'_mod _ ts.rotation.toNat, List.range'_eq_map_range, List.count, List.countP_map,
      List.countP_map]
  refine List.countP_congr fun n hn => ?_
  have hsum : (ts.rotation + .ofNat n).toNat = ts.rotation.toNat + n := by
    rw [UInt64.toNat_add, UInt64.toNat_ofNat']
    have := List.mem_range.mp hn
    omega
  obtain ⟨other, -, -, heq, hselect⟩ :=
    ts.selectBucket_mem (Nat.mod_lt (ts.rotation.toNat + n) (by decide))
  simp only [Function.comp_apply, hsum, hselect, heq]
  simp

/-- A table with a third epoch of weight zero. -/
theorem draws_exact_halves :
    ∃ ts : TrafficSelector, newTrafficSelector [⟨1, 5000⟩, ⟨2, 0⟩, ⟨3, 5000⟩] = .ok ts ∧
      ((ts.draws (fun unit _ => unit) (List.replicate totalBasisPoints [])).count (.ok 3)) = 5000 :=
  ⟨_, rfl, (TrafficSelector.draws_exact _ _ _).2 List.count_replicate_self (by decide) 3⟩

end Keelith.Topology

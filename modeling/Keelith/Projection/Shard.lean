import Keelith.Lib.Checks
import Keelith.Projection.Owner
import Mathlib.Data.List.Sort

/-!
# Shards of an ordered key space

`RangeShardResolver` of `programmable/projection/shard.go`. The type of the keys and `compare` are
parameters. A resolver that is nil or has no `compare` is left out: `NewRangeShardResolver` makes
none.
-/

namespace Keelith.Projection

/-- The errors of the package with their texts. -/
inductive ShardError where
  | rangeContract
  | rangeBoundary (index : Nat)
  | shardCount
  | shardIdentity
  deriving DecidableEq

/-- `ShardID.Validate`. -/
def validShard (id : String) : Bool := validIdentity id Owner.Source.maxShardIDBytes

/-- `RangeBoundary`. -/
structure RangeBoundary (κ : Type) where
  upper : κ
  shard : String

/-- `RangeShardResolver`. -/
structure RangeShardResolver (κ : Type) where
  keyFingerprint : String
  compare : κ → κ → Int
  boundaries : List (RangeBoundary κ)
  fallback : String
  /-- `Shards`. -/
  shards : List String

def canonicalShards (values : List String) : Except ShardError (List String) :=
  if values = [] ∨ values.length > 4096 then .error .shardCount
  else
    let result := values.insertionSort (· ≤ ·)
    if result.all validShard ∧ result.IsChain (· ≠ ·) then .ok result else .error .shardIdentity

section

variable {κ : Type}

/-- The loop of `NewRangeShardResolver`. -/
def checkBoundaries (compare : κ → κ → Int) : Nat → Option κ → List (RangeBoundary κ) →
    Except ShardError Unit
  | _, _, [] => .ok ()
  | index, previous, boundary :: rest =>
    if !validShard boundary.shard || previous.any fun upper => compare upper boundary.upper ≥ 0 then
      .error (.rangeBoundary index)
    else checkBoundaries compare (index + 1) (some boundary.upper) rest

def newRangeShardResolver (keyFingerprint : String) (compare : κ → κ → Int)
    (boundaries : List (RangeBoundary κ))
    (fallback : String) : Except ShardError (RangeShardResolver κ) :=
  if !validFingerprint keyFingerprint || boundaries.isEmpty || boundaries.length > 4096 ||
    !validShard fallback then
    .error .rangeContract
  else do
    checkBoundaries compare 0 none boundaries
    let shards ← canonicalShards (boundaries.map RangeBoundary.shard ++ [fallback])
    .ok ⟨keyFingerprint, compare, boundaries, fallback, shards⟩

def RangeShardResolver.resolve (r : RangeShardResolver κ) (key : κ) : String :=
  ((r.boundaries.find? fun boundary => r.compare key boundary.upper < 0).map
    RangeBoundary.shard).getD r.fallback

end

theorem canonicalShards_eq_ok {values shards : List String}
    (h : canonicalShards values = .ok shards) :
    values.Nodup ∧ ∀ shard ∈ values, shard ∈ shards := by
  obtain ⟨-, h⟩ := guard_eq_ok.mp h
  dsimp only at h
  split at h
  next hchain =>
    obtain rfl := Except.ok.inj h
    have hperm := values.perm_insertionSort (· ≤ ·)
    have hlt : (values.insertionSort (· ≤ ·)).Pairwise (· < ·) :=
      pairwise_of_chain lt_trans (List.pairwise_insertionSort (· ≤ ·) values) hchain.2 fun _ _ =>
        lt_of_le_of_ne
    exact ⟨hperm.nodup_iff.mp hlt.nodup, fun shard => hperm.mem_iff.mpr⟩
  next => cases h

theorem checkBoundaries_eq_ok {κ : Type} {compare : κ → κ → Int} {index : Nat} {previous : Option κ}
    {boundaries : List (RangeBoundary κ)}
    (h : checkBoundaries compare index previous boundaries = .ok ()) :
    (previous.toList ++ boundaries.map RangeBoundary.upper).IsChain fun a b => compare a b < 0 := by
  induction boundaries generalizing index previous with
  | nil => cases previous <;> simp
  | cons boundary rest ih =>
    obtain ⟨hfine, h⟩ := guard_eq_ok.mp h
    have hrest := ih h
    cases previous with
    | none => exact hrest
    | some upper =>
      refine List.isChain_cons_cons.mpr ⟨?_, hrest⟩
      simp only [Option.any_some, Bool.or_eq_true, not_or, decide_eq_true_eq, not_le] at hfine
      exact hfine.2

variable {κ : Type} [LinearOrder κ] {boundaries : List (RangeBoundary κ)}

/-- The keys from the boundary before the index up to the one at the index; after the last one,
those of the fallback. -/
def interval (boundaries : List (RangeBoundary κ)) (index : Nat) : Set κ :=
  {key | (∀ i boundary, i + 1 = index → boundaries[i]? = some boundary → boundary.upper ≤ key) ∧
    ∀ boundary, boundaries[index]? = some boundary → key < boundary.upper}

/-- The index of the first boundary above a key. -/
def place (boundaries : List (RangeBoundary κ)) (key : κ) : Nat :=
  boundaries.findIdx fun boundary => key < boundary.upper

theorem mem_interval_iff (hsorted : boundaries.Pairwise fun a b => a.upper < b.upper) {index : Nat}
    (hindex : index ≤ boundaries.length) {key : κ} : key ∈ interval boundaries index ↔
    place boundaries key = index := by
  constructor
  · rintro ⟨hlower, hupper⟩
    refine le_antisymm (not_lt.mp fun hlt => ?_) (not_lt.mp fun hlt => ?_)
    · exact of_decide_eq_false (List.not_of_lt_findIdx hlt) (hupper _ (List.getElem?_eq_getElem _))
    · -- the boundary before the index is at or below the key, and so are those before it
      have hlast : index - 1 < boundaries.length := by omega
      have hle := hlower (index - 1) _ (by omega) (List.getElem?_eq_getElem hlast)
      have hall (i : Nat) (hi : i ≤ index - 1) : (boundaries[i]).upper ≤ key := by
        rcases hi.lt_or_eq with hi | rfl
        · exact ((List.pairwise_iff_getElem.mp hsorted i _ _ hlast hi).trans_le hle).le
        · exact hle
      have habove := of_decide_eq_true (List.findIdx_getElem (w := hlt.trans_le hindex))
      exact habove.not_ge (hall _ (Nat.le_sub_one_of_lt hlt))
  · rintro rfl
    refine ⟨fun i boundary hi hget => ?_, fun boundary hget => ?_⟩
    all_goals obtain ⟨hlength, rfl⟩ := List.getElem?_eq_some_iff.mp hget
    · exact not_lt.mp (of_decide_eq_false (List.not_of_lt_findIdx (Nat.lt_of_succ_le hi.le)))
    · exact of_decide_eq_true (List.findIdx_getElem (w := hlength))

/-- **Ranges partition the keys.** -/
theorem resolve_partitions {keyFingerprint fallback : String} {compare : κ → κ → Int}
    {r : RangeShardResolver κ} (hcompare : ∀ a b, compare a b < 0 ↔ a < b)
    (h : newRangeShardResolver keyFingerprint compare boundaries fallback = .ok r) :
    (∀ index shard, (boundaries.map RangeBoundary.shard ++ [fallback])[index]? = some shard →
        {key | r.resolve key = shard} = interval boundaries index) ∧
      (∀ key, ∃! index, index ≤ boundaries.length ∧ key ∈ interval boundaries index) ∧
        ∀ key, r.resolve key ∈ r.shards := by
  obtain ⟨-, h⟩ := guard_eq_ok.mp h
  obtain ⟨⟨⟩, hchain, h⟩ := bind_eq_ok.mp h
  obtain ⟨shards, hshards, h⟩ := bind_eq_ok.mp h
  obtain rfl := Except.ok.inj h
  obtain ⟨hnodup, hmem⟩ := canonicalShards_eq_ok hshards
  have hsorted := List.pairwise_map.mp
    (List.isChain_iff_pairwise.mp ((checkBoundaries_eq_ok hchain).imp fun a b => (hcompare a b).mp))
  have hplace (key : κ) : place boundaries key ≤ boundaries.length := List.findIdx_le_length
  have hresolve (key : κ) :
      (boundaries.map RangeBoundary.shard ++ [fallback])[place boundaries key]? =
        some (RangeShardResolver.resolve ⟨keyFingerprint, compare, boundaries, fallback,
          shards⟩ key) := by
    simp only [RangeShardResolver.resolve, hcompare, List.find?_eq_getElem?_findIdx]
    rw [← place]
    rcases (hplace key).lt_or_eq with hlt | heq
    · simp [List.getElem?_append, hlt]
    · simp [heq]
  refine ⟨fun index shard hshard => Set.ext fun key => ?_,
    fun key => ⟨_, ⟨hplace key, (mem_interval_iff hsorted (hplace key)).mpr rfl⟩, ?_⟩,
    fun key => hmem _ (List.mem_of_getElem? (hresolve key))⟩
  · obtain ⟨hindex, -⟩ := List.getElem?_eq_some_iff.mp hshard
    rw [mem_interval_iff hsorted (by simpa [Nat.lt_succ_iff] using hindex),
      Set.mem_ofPred_eq, ← Option.some_inj, ← hresolve, ← hshard]
    exact eq_comm.trans ((List.getElem?_inj hindex hnodup).trans eq_comm)
  · rintro index ⟨hle, hkey⟩
    exact ((mem_interval_iff hsorted hle).mp hkey).symm

theorem resolve_partitions_numbers :
    ∃ r, newRangeShardResolver (String.ofList (List.replicate 64 'a')) (fun a b : Int => a - b)
      [⟨10, "low"⟩, ⟨20, "middle"⟩] "high" = .ok r ∧
    {key | r.resolve key = "middle"} = interval [⟨10, "low"⟩, ⟨20, "middle"⟩] 1 :=
  Exists.imp (fun _ h => ⟨h, (resolve_partitions (fun _ _ => sub_neg) h).1 1 _ rfl⟩) ⟨_, rfl⟩

end Keelith.Projection

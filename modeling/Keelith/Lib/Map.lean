import Mathlib.Data.Finmap
import Mathlib.Data.Finset.Sort
import Mathlib.Data.String.Basic

/-!
# Go maps

A Go `map[K]V` is a finite map up to the order of its entries: Mathlib's `Finmap` at a constant
family (`Map`). The operations of the sources that `Finmap` does not have:

* `size`: `len(m)`; `all`: a `range` loop that returns at the first entry that fails a check;
* `mapValues`: a `range` loop that writes each entry back;
* `Ranges order m`: a `range` loop visits the keys of `m` in the order `order`. Go leaves the
  order open, so a function with such a loop takes it as an argument.

* `sorted`: the entries by their keys; `collect`: a loop that fills a map and stops at a key that is
  there already. `collect_sorted`: a map that is written in order is read back.

`lookup_insert_eq` and `lookup_erase_eq` give the lookup of a changed map at every key, in the
form that `simp` and `split` use.
-/

namespace Keelith

instance isTrans_string_le : IsTrans String fun a b => a ≤ b := ⟨fun _ _ _ => le_trans⟩

instance antisymm_string_le : Std.Antisymm fun a b : String => a ≤ b := ⟨fun _ _ => le_antisymm⟩

instance total_string_le : Std.Total fun a b : String => a ≤ b := ⟨le_total⟩

/-- A Go map. -/
abbrev Map (α β : Type) := Finmap fun _ : α => β

namespace Map

variable {α β γ : Type}

/-- `len(m)`. -/
def size (m : Map α β) : Nat := m.keys.card

/-- Every entry satisfies `p`. -/
def all (m : Map α β) (p : α → β → Bool) : Bool :=
  decide (∀ e ∈ m.entries, p e.1 e.2 = true)

/-- The map with each value `b` at `a` replaced by `f a b`. -/
def mapValues (f : α → β → γ) (m : Map α β) : Map α γ where
  entries := m.entries.map fun e => ⟨e.1, f e.1 e.2⟩
  nodupKeys := by
    have h := Multiset.nodup_keys.mpr m.nodupKeys
    rw [← Multiset.nodup_keys]
    simpa [Multiset.keys, Multiset.map_map, Function.comp_def] using h

/-- A `range` loop over `m` visits its keys in the order `order`. -/
structure Ranges (order : List α) (m : Map α β) : Prop where
  nodup : order.Nodup
  mem : ∀ a, a ∈ order ↔ a ∈ m

variable [DecidableEq α]

variable {m : Map α β} {a : α} {b : β} {entry : γ → Option (α × β)} {write : α × β → γ}

theorem ranges_iff {order : List α} : Ranges order m ↔ order.Nodup ∧ order.toFinset = m.keys := by
  constructor
  · rintro ⟨hnodup, hmem⟩
    exact ⟨hnodup, Finset.ext fun a => by rw [List.mem_toFinset, hmem, Finmap.mem_keys]⟩
  · rintro ⟨hnodup, hkeys⟩
    exact ⟨hnodup, fun a => by rw [← List.mem_toFinset, hkeys, Finmap.mem_keys]⟩

instance (order : List α) (m : Map α β) : Decidable (Ranges order m) :=
  decidable_of_iff _ ranges_iff.symm

theorem all_iff {p : α → β → Bool} : m.all p = true ↔ ∀ a b, m.lookup a = some b →
    p a b = true := by
  simp only [all, decide_eq_true_eq]
  constructor
  · intro h a b hl
    exact h ⟨a, b⟩ (Finmap.lookup_eq_some_iff.mp hl)
  · rintro h ⟨a, b⟩ he
    exact h a b (Finmap.lookup_eq_some_iff.mpr he)

theorem lookup_insert_eq (m : Map α β) (a x : α) (b : β) :
    (m.insert a b).lookup x = if x = a then some b else m.lookup x := by
  by_cases h : x = a
  · subst h; simp
  · rw [Finmap.lookup_insert_of_ne _ h, if_neg h]

theorem lookup_erase_eq (m : Map α β) (a x : α) :
    (m.erase a).lookup x = if x = a then none else m.lookup x := by
  by_cases h : x = a
  · subst h; simp
  · rw [Finmap.lookup_erase_ne h, if_neg h]

/-- The entries of a list with distinct keys, written one after another. -/
theorem lookup_foldl_insert {ι : Type} {key : ι → α} {value : ι → β} {l : List ι}
    (hnodup : (l.map key).Nodup)
    (m : Map α β) : let m' := l.foldl (fun m i => m.insert (key i) (value i)) m
    (∀ i ∈ l, m'.lookup (key i) = some (value i)) ∧ ∀ a ∉ l.map key, m'.lookup a = m.lookup a := by
  induction l generalizing m with
  | nil => simp
  | cons i l ih =>
    obtain ⟨hnotin, hnodup⟩ := List.nodup_cons.mp hnodup
    obtain ⟨hmem, hother⟩ := ih hnodup (m.insert (key i) (value i))
    refine ⟨fun j hj => ?_, fun a ha => ?_⟩
    · rcases List.mem_cons.mp hj with rfl | hj
      · exact (hother _ hnotin).trans (Finmap.lookup_insert _)
      · exact hmem j hj
    · simp only [List.map_cons, List.mem_cons, not_or] at ha
      exact (hother a ha.2).trans (Finmap.lookup_insert_of_ne _ ha.1)

@[simp] theorem lookup_mapValues (f : α → β → γ) (m : Map α β) (a : α) :
    (m.mapValues f).lookup a = (m.lookup a).map (f a) := by
  cases h : m.lookup a with
  | none =>
    have hm : a ∉ m := Finmap.lookup_eq_none.mp h
    rw [Option.map_none, Finmap.lookup_eq_none, Finmap.mem_def]
    rw [Finmap.mem_def] at hm
    simpa [mapValues, Multiset.keys] using hm
  | some b =>
    rw [Option.map_some, Finmap.lookup_eq_some_iff]
    exact Multiset.mem_map.mpr ⟨⟨a, b⟩, Finmap.lookup_eq_some_iff.mp h, rfl⟩

/-- Writing a key that is there keeps the keys. -/
theorem keys_insert_of_mem (h : a ∈ m) : (m.insert a b).keys = m.keys := by
  ext x
  rw [Finmap.mem_keys, Finmap.mem_insert]
  constructor
  · rintro (rfl | hx)
    · exact h
    · exact hx
  · exact Or.inr

/-! ## Entries in order -/

/-- The entries of a map, sorted by their keys. -/
def sorted [LinearOrder α] (m : Map α β) : List (α × β) :=
  (m.keys.sort (· ≤ ·)).filterMap fun a => (m.lookup a).map (a, ·)

theorem length_sorted [LinearOrder α] (m : Map α β) : m.sorted.length = m.size := by
  rw [sorted, size, ← Finset.length_sort (· ≤ ·), List.filterMap_length_eq_length]
  intro a ha
  rw [Option.isSome_map, Finmap.lookup_isSome]
  exact (Finset.mem_sort _).mp ha

/-- A loop that reads entries into a map; an entry has to be readable, with a new key. -/
def collect (entry : γ → Option (α × β)) : Map α β → List γ → Option (Map α β)
  | m, [] => some m
  | m, x :: xs => do
    let (a, b) ← entry x
    if a ∈ m then none else collect entry (m.insert a b) xs

theorem mem_of_lookup (h : m.lookup a = some b) : a ∈ m :=
  Finmap.mem_of_lookup_eq_some h

/-- The loop reads the entries of `m` at the keys `keys`, and keeps what `acc` has. -/
theorem collect_filterMap (h : ∀ a b, m.lookup a = some b → entry (write (a, b)) = some (a, b))
    {keys : List α} (hnodup : keys.Nodup) (acc : Map α β) (hkeys : ∀ a ∈ keys, a ∈ m ∧ a ∉ acc) :
    ∃ result, collect entry acc ((keys.filterMap fun a => (m.lookup a).map (a, ·)).map write) =
      some result ∧ ∀ x, result.lookup x = if x ∈ keys then m.lookup x else acc.lookup x := by
  induction keys generalizing acc with
  | nil => exact ⟨acc, rfl, fun x => by simp⟩
  | cons a keys ih =>
    obtain ⟨ha, hnew⟩ := hkeys a (by simp)
    obtain ⟨b, hb⟩ := Finmap.mem_iff.mp ha
    obtain ⟨hnotin, hnodup⟩ := List.nodup_cons.mp hnodup
    have hrest : ∀ c ∈ keys, c ∈ m ∧ c ∉ acc.insert a b := by
      intro c hc
      refine ⟨(hkeys c (by simp [hc])).1, fun hmem => ?_⟩
      rcases Finmap.mem_insert.mp hmem with rfl | hmem
      · exact hnotin hc
      · exact (hkeys c (by simp [hc])).2 hmem
    obtain ⟨result, hresult, hlookup⟩ := ih hnodup (acc.insert a b) hrest
    refine ⟨result, ?_, fun x => ?_⟩
    · simpa [hb, collect, h a b hb, hnew] using hresult
    · rw [hlookup]
      by_cases hx : x = a
      · subst hx; simp [hb]
      · simp [hx]

theorem collect_sorted [LinearOrder α]
    (h : ∀ a b, m.lookup a = some b → entry (write (a, b)) = some (a, b)) :
    collect entry ∅ (m.sorted.map write) = some m := by
  have hmem : ∀ a, a ∈ m.keys.sort (· ≤ ·) ↔ a ∈ m :=
    fun a => by rw [Finset.mem_sort, Finmap.mem_keys]
  obtain ⟨result, hresult, hlookup⟩ := collect_filterMap h (Finset.sort_nodup m.keys (· ≤ ·)) ∅
    fun a ha => ⟨(hmem a).mp ha, Finmap.notMem_empty⟩
  rw [sorted, hresult]
  congr 1
  refine Finmap.ext_lookup fun x => ?_
  rw [hlookup]
  split
  next => rfl
  next hx => rw [Finmap.lookup_empty, Finmap.lookup_eq_none.mpr (mt (hmem x).mpr hx)]

theorem size_eq_zero : m.size = 0 ↔ m = ∅ := by
  constructor
  · intro h
    refine Finmap.ext_lookup fun x => ?_
    rw [Finmap.lookup_empty, Finmap.lookup_eq_none, ← Finmap.mem_keys, Finset.card_eq_zero.mp h]
    exact Finset.notMem_empty x
  · rintro rfl; rfl

end Map

end Keelith

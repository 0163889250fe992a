import Keelith.Cache.Steps

/-!
# No stale write

A flight stores what its loader returned only if no mutation of the key, and no applied
invalidation, came after the loader was started.

* `LockInv`: a stripe has one owner; the generation of a stripe does not change while a flight has
  it.
* `bumps`: the mutations of a stripe in a history; the generation is their number modulo `2 ^ 64`
  (`RunInv`).
* `FlightInv`: the generation and the version of a flight are those of a step before its loader was
  started.
* `no_stale_write` puts them together. Two equal generations are no mutation in between, or `2 ^ 64`
  of them.
-/

namespace Keelith.Cache

variable {τ : Type} {sf : Singleflight} {cfg : Nat → Config τ} {input : Input τ} {answer : Answer τ}

/-- An event of a run. -/
abbrev CacheEvent (τ : Type) := Event (System τ) (Input τ) Observation

/-! ## Threads -/

/-- The cache of a thread. -/
def Thread.cache : Thread τ → Nat
  | .get g => g.cache
  | .flight f => f.cache
  | .mutation m => m.cache

/-- The flight has its stripe. -/
@[simp] def FlightPhase.locks : FlightPhase τ → Bool
  | .writing _ _ | .unlocking _ _ => true
  | _ => false

/-- The stripes that a mutation has. -/
@[simp] def Mutation.held (m : Mutation τ) : List Nat :=
  match m.phase with
  | .locking todo => (lockStripes m.keys).filter (· ∉ todo)
  | .bumping _ | .forgetting _ | .acting | .setting _ => lockStripes m.keys
  | .unlocking todo _ => todo
  | .refused _ | .applying | .returned _ _ => []

/-- The stripes that a thread has. -/
@[simp] def Thread.held : Thread τ → List Nat
  | .get _ => []
  | .flight f => if f.phase.locks then [f.stripe] else []
  | .mutation m => m.held

/-- What the lists of a mutation hold. -/
def Mutation.Listed (m : Mutation τ) : Prop :=
  match m.phase with
  | .bumping todo => todo ⊆ lockStripes m.keys
  | .unlocking todo _ => todo.Nodup
  | _ => True

/-- What the lists of a thread hold. -/
def Thread.Listed : Thread τ → Prop
  | .mutation m => m.Listed
  | _ => True

theorem lockStripes_nodup (keys : List String) : (lockStripes keys).Nodup := Finset.sort_nodup _ _

theorem mem_lockStripes {keys : List String} {stripe : Nat} :
    stripe ∈ lockStripes keys ↔ ∃ key ∈ keys, mutationStripeIndex key = stripe := by
  simp [lockStripes]

/-! ## Locks -/

/-- A thread owns the stripes that it has. -/
structure LockInv (s : System τ) : Prop where
  owned : ∀ j t, s.threads[j]? = some t → ∀ stripe ∈ t.held, s.shared.lock t.cache stripe = some j
  listed : ∀ (j : Nat) (t : Thread τ), s.threads[j]? = some t → t.Listed

theorem update_update {α β γ : Type} [DecidableEq α] [DecidableEq β] (f : α → β → γ) (a x : α)
    (b y : β) (c : γ) :
    Function.update f a (Function.update (f a) b c) x y = if x = a ∧ y = b then c else f x y := by
  by_cases ha : x = a
  · subst ha
    by_cases hb : y = b <;> simp [hb]
  · simp [ha]

@[simp] theorem Shared.setLock_lock (s : Shared) (cache stripe c σ : Nat) (holder : Option Nat) :
    (s.setLock cache stripe holder).lock c σ = if c = cache ∧
      σ = stripe then holder else s.lock c σ :=
  update_update ..

@[simp] theorem Shared.bump_generation (s : Shared) (cache stripe c σ : Nat) :
    (s.bump cache stripe).generation c σ =
      s.generation c σ + if c = cache ∧ σ = stripe then 1 else 0 := by
  refine (update_update ..).trans ?_
  split
  next h => rw [h.1, h.2]
  next => rw [UInt64.add_zero]

/-- How a step of the thread at `index` changes its stripes and the locks of its cache. -/
inductive LockChange (index cache : Nat) (held : List Nat) (lock : Nat → Nat → Option Nat) :
    List Nat → (Nat → Nat → Option Nat) → Prop
  | keep {held' lock'} (sub : held' ⊆ held) (same : lock' = lock) :
      LockChange index cache held lock held' lock'
  | take {stripe held' lock'} (free : lock cache stripe = none) (sub : held' ⊆ stripe :: held)
      (taken : ∀ c σ, lock' c σ = if c = cache ∧ σ = stripe then some index else lock c σ) :
      LockChange index cache held lock held' lock'
  | release {stripe held' lock'} (mem : stripe ∈ held) (sub : held' ⊆ held) (gone : stripe ∉ held')
      (released : ∀ c σ, lock' c σ = if c = cache ∧ σ = stripe then none else lock c σ) :
      LockChange index cache held lock held' lock'

/-- A flight that has its stripe writes its envelope if the generation is still the one that it has
read. -/
theorem Load.check_cases (config : Config τ) (load : Load τ) (current : UInt64) :
    (∃ err, load.check config current = .unlocking load err ∧
        (err.isSome = true → (load.envelope config).isOk = false)) ∨
      (load.generation = current ∧ ∃ envelope, load.envelope config = .ok envelope ∧
        load.check config current = .writing load envelope) := by
  unfold check
  split
  · exact .inl ⟨_, rfl, nofun⟩
  rename_i hcurrent
  rw [not_not] at hcurrent
  split
  next herror => exact .inl ⟨_, rfl, fun _ => by rw [herror]; rfl⟩
  next hok =>
    split
    · exact .inl ⟨_, rfl, nofun⟩
    · exact .inr ⟨hcurrent.symm, _, hok, rfl⟩

theorem Load.check_locks (config : Config τ) (load : Load τ) (current : UInt64) :
    (load.check config current).locks = true := by
  rcases load.check_cases config current with ⟨err, h, -⟩ | ⟨-, envelope, -, h⟩ <;> rw [h] <;> rfl

variable {index : Nat} {output : Observation} {phase : FlightPhase τ} {m : Mutation τ}
  {result : Except Error Answered} {key : String} {state : Option InvalidationState}
  {s s' : System τ} {history : List (CacheEvent τ)} {e : CacheEvent τ}

variable {shared : Shared} {t : Thread τ} {o : Observation} {c createdAt startedAt q : Nat}

variable {f : Flight τ}

theorem FlightMove.lockChange {config : Config τ}
    (h : FlightMove config s index answer f phase shared output) :
    LockChange index f.cache (Thread.flight f).held s.shared.lock
      (Thread.flight { f with phase }).held shared.lock := by
  cases h with
  | lock phase free =>
    refine .take free ?_ fun c σ => Shared.setLock_lock ..
    simp [Load.check_locks, Flight.stripe, -FlightPhase.locks]
  | write phase | skip phase =>
    refine .keep ?_ rfl
    simp [phase, Flight.stripe]
  | unlock phase =>
    have hmem : f.stripe ∈ (Thread.flight f).held := by simp [phase]
    refine .release hmem ?_ ?_ fun c σ => Shared.setLock_lock ..
    all_goals simp
  | finish phase removed =>
    rcases removed with rfl | rfl <;> exact .keep (by simp) rfl
  | _ => exact .keep (by simp) rfl

theorem MutationMove.lockChange {phase : MutationPhase} (hlisted : m.Listed)
    (h : MutationMove s index m phase shared output) :
    LockChange index m.cache m.held s.shared.lock (Mutation.held { m with state, phase })
      shared.lock := by
  cases h with
  | apply phase applies => exact .keep (fun σ hσ => by simp at hσ) (by cases applies <;> rfl)
  | answer phase kind applies => exact .keep (by simp) (by cases applies <;> rfl)
  | @lock stripe todo phase free =>
    refine .take free (fun σ hσ => ?_) fun c σ => Shared.setLock_lock ..
    simp only [Mutation.held, phase, List.mem_filter, List.mem_cons, decide_eq_true_eq,
      not_or] at hσ ⊢
    by_cases heq : σ = stripe
    · exact .inl heq
    · exact .inr ⟨hσ.1, heq, hσ.2⟩
  | locked phase => exact .keep (by simp [phase]) rfl
  | act phase acts | set phase _ acts => exact .keep (by simp [phase]) (by cases acts <;> rfl)
  | @unlock stripe todo result phase =>
    simp only [Mutation.Listed, phase, List.nodup_cons] at hlisted
    have hmem : stripe ∈ m.held := by simp [phase]
    refine .release hmem ?_ ?_ fun c σ => Shared.setLock_lock ..
    · simp [phase]
    · simpa using hlisted.1
  | bump phase | bumped phase | forget phase | forgotten phase | read phase | done phase =>
    exact .keep (by simp [phase]) rfl

theorem MutationMove.listed {phase : MutationPhase} (hlisted : m.Listed)
    (h : MutationMove s index m phase shared output) : Mutation.Listed { m with state, phase } := by
  cases h with
  | locked => exact List.Subset.refl _
  | bump phase =>
    simp only [Mutation.Listed, phase] at hlisted ⊢
    exact (List.cons_subset.mp hlisted).2
  | act | set => exact List.nodup_reverse.mpr (lockStripes_nodup _)
  | unlock phase =>
    simp only [Mutation.Listed, phase] at hlisted ⊢
    exact (List.nodup_cons.mp hlisted).2
  | _ => trivial

/-- One thread moves and the others keep their stripes. -/
theorem LockInv.moved (h : LockInv s) (t' : Thread τ)
    (ht : s.threads[index]? = some t) (hcache : t'.cache = t.cache) (hlisted : t'.Listed)
    (hchange : LockChange index t.cache t.held s.shared.lock t'.held shared.lock) (clock : Nat) :
    LockInv ⟨shared, s.threads.set index t', clock⟩ := by
  refine ⟨fun j u hu σ hσ => ?_, fun j u hu => ?_⟩
  · rcases Threads.cases_set hu with ⟨rfl, rfl⟩ | ⟨hne, hu⟩
    · rw [hcache]
      cases hchange with
      | keep sub same => exact (congrFun₂ same _ _).trans (h.owned j t ht σ (sub hσ))
      | take free sub taken =>
        rw [taken]
        rcases List.mem_cons.mp (sub hσ) with rfl | hheld
        · simp
        · split
          · rfl
          · exact h.owned j t ht σ hheld
      | release mem sub gone released =>
        rw [released, if_neg]
        · exact h.owned j t ht σ (sub hσ)
        · rintro ⟨-, rfl⟩
          exact gone hσ
    · -- the stripe that is taken was free, and the stripe that is released is owned by `index`
      have hu' := h.owned j u hu σ hσ
      cases hchange with
      | keep _ same => exact (congrFun₂ same _ _).trans hu'
      | take free sub taken =>
        rw [taken, if_neg]
        · exact hu'
        · rintro ⟨hc, rfl⟩
          rw [hc, free] at hu'
          cases hu'
      | release mem sub gone released =>
        rw [released, if_neg]
        · exact hu'
        · rintro ⟨hc, rfl⟩
          rw [hc, h.owned index t ht _ mem] at hu'
          exact hne (Option.some.inj hu').symm
  · rcases Threads.cases_set hu with ⟨-, rfl⟩ | ⟨-, hu⟩
    · exact hlisted
    · exact h.listed j u hu

/-- A new thread has no stripe. -/
theorem LockInv.added (h : LockInv s) {added : List (Thread τ)}
    (hadded : ∀ t ∈ added, t.held = [] ∧ t.Listed) (clock : Nat) :
    LockInv ⟨s.shared, s.threads ++ added, clock⟩ := by
  refine ⟨fun j u hu σ hσ => ?_, fun j u hu => ?_⟩
  · rcases getElem?_added hu with hu | hnew
    · exact h.owned j u hu σ hσ
    · rw [(hadded u hnew).1] at hσ
      cases hσ
  · rcases getElem?_added hu with hu | hnew
    · exact h.listed j u hu
    · exact (hadded u hnew).2

theorem checkMutation_phase (config : Config τ) (kind : Kind τ) (keys : List String) :
    (∃ err, checkMutation config kind keys = .refused err) ∨
      checkMutation config kind keys = .locking (lockStripes keys) ∨
      (checkMutation config kind keys = .applying ∧ ∃ version, kind = .version version) := by
  unfold checkMutation
  split
  · split
    · exact .inr (.inl rfl)
    · exact .inl ⟨_, rfl⟩
  · split
    · exact .inl ⟨_, rfl⟩
    split
    · exact .inl ⟨_, rfl⟩
    split
    · exact .inr (.inl rfl)
    · exact .inl ⟨_, rfl⟩
  · split
    · exact .inl ⟨_, rfl⟩
    split
    · exact .inr (.inl rfl)
    · exact .inl ⟨_, rfl⟩
  · split
    · exact .inl ⟨_, rfl⟩
    split
    · exact .inl ⟨_, rfl⟩
    split
    · exact .inl ⟨_, rfl⟩
    · exact .inr (.inr ⟨rfl, _, rfl⟩)

theorem LockInv.step (h : LockInv s) (hstep : Steps cfg s input output s') : LockInv s' := by
  cases hstep with
  | idle | expire => exact ⟨h.owned, h.listed⟩
  | get cache key => exact h.added (by simp [Thread.Listed]) _
  | mutate cache kind keys =>
    refine h.added (fun t ht => ?_) _
    obtain rfl := List.mem_singleton.mp ht
    rcases checkMutation_phase (cfg cache) kind keys with ⟨err, hp⟩ | hp | ⟨hp, -⟩ <;>
      simp [Thread.Listed, Mutation.Listed, hp]
  | @getMove index answer g phase shared spawned thread move =>
    have hlock : shared.lock = s.shared.lock := by
      rcases move.frame with ⟨rfl, -⟩ | ⟨rfl, -⟩ <;> rfl
    have hmoved := h.moved (.get { g with phase }) thread rfl trivial
      (.keep (List.Subset.refl _) hlock) (s.clock + 1)
    refine hmoved.added (fun t ht => ?_) _
    rcases move.frame with ⟨-, rfl⟩ | ⟨-, rfl⟩
    · cases ht
    · obtain rfl := List.mem_singleton.mp ht
      exact ⟨rfl, trivial⟩
  | @flightMove index answer f phase shared output thread move =>
    exact h.moved (.flight { f with phase }) thread rfl trivial move.lockChange _
  | @mutationMove index answer m state phase shared output thread move =>
    have hlisted : m.Listed := h.listed index _ thread
    exact h.moved (.mutation { m with state, phase }) thread rfl (move.listed hlisted)
      (move.lockChange hlisted) _

/-! ## Generations and versions -/

/-- The step `q` of the history shows `o`. -/
def Seen (history : List (CacheEvent τ)) (q : Nat) (o : Observation) : Prop :=
  ∃ e, history[q]? = some e ∧ e.output = o

/-- The mutations of the stripe in a history. -/
def bumps (cache stripe : Nat) (history : List (CacheEvent τ)) : Nat :=
  history.countP fun e => e.output = .bumps cache stripe

theorem Seen.snoc (h : Seen history q o) (e : CacheEvent τ) : Seen (history ++ [e]) q o := by
  obtain ⟨e', he', ho⟩ := h
  exact ⟨e', getElem?_snoc.mpr (.inl he'), ho⟩

theorem seen_snoc (h : Seen (history ++ [e]) q o) :
    Seen history q o ∨ (q = history.length ∧ e.output = o) := by
  obtain ⟨e', he', ho⟩ := h
  obtain he' | ⟨hq, rfl⟩ := getElem?_snoc.mp he'
  · exact .inl ⟨e', he', ho⟩
  · exact .inr ⟨hq, ho⟩

/-- The generation of a stripe counts its mutations. -/
theorem Changes.generation (h : Changes cfg s input output shared) (c σ : Nat) :
    shared.generation c σ = s.shared.generation c σ + if output = .bumps c σ then 1 else 0 := by
  cases h with
  | bump =>
    rw [Shared.bump_generation]
    simp [@eq_comm _ c, @eq_comm _ σ]
  | _ => simp [Shared.setLock, Shared.setFlight, Shared.setGroup, Shared.delete, Shared.write]

/-- Versions do not go back, and an applied invalidation advances them. -/
theorem Changes.versions (h : Changes cfg s input output shared) (key : String) :
    s.shared.versions key ≤ shared.versions key ∧
      (output = .applied key → s.shared.versions key < shared.versions key) := by
  cases h with
  | @apply _ k version newer =>
    by_cases hkey : key = k
    · subst hkey
      simp only [Function.update_self]
      exact ⟨UInt64.le_of_lt newer, fun _ => newer⟩
    · simp only [Function.update_of_ne hkey]
      exact ⟨UInt64.le_refl _, fun h => absurd (Observation.applied.inj h).symm hkey⟩
  | _ => exact ⟨UInt64.le_refl _, nofun⟩

theorem FlightMove.output_ne_bumps {config : Config τ}
    (h : FlightMove config s index answer f phase shared output) (c σ : Nat) :
    output ≠ .bumps c σ := by
  cases h <;> exact nofun

/-- Only the owner of a stripe advances its generation. -/
theorem Changes.bumps_owner {σ : Nat} (hlocks : LockInv s)
    (h : Changes cfg s input (.bumps c σ) shared) :
    ∃ index m, s.threads[index]? = some (.mutation m) ∧ s.shared.lock c σ = some index := by
  cases h with
  | @bump index _ m _ _ thread phase =>
    refine ⟨index, m, thread, hlocks.owned index _ thread _ ?_⟩
    have hlisted : m.Listed := hlocks.listed index _ thread
    simp only [Mutation.Listed, phase] at hlisted
    simpa [phase] using hlisted List.mem_cons_self

theorem bumps_append (cache stripe : Nat) (left right : List (CacheEvent τ)) :
    bumps cache stripe (left ++ right) = bumps cache stripe left + bumps cache stripe right :=
  List.countP_append

theorem bumps_take_drop (cache stripe base : Nat) (history : List (CacheEvent τ)) :
    bumps cache stripe (history.take base) + bumps cache stripe (history.drop base) =
      bumps cache stripe history := by
  rw [← bumps_append, List.take_append_drop]

/-- A mutation that is seen from `base` on is counted there. -/
theorem bumps_drop_pos {cache stripe base : Nat} (hbase : base ≤ q)
    (h : Seen history q (.bumps cache stripe)) : 0 < bumps cache stripe (history.drop base) := by
  obtain ⟨e, he, ho⟩ := h
  refine List.countP_pos_iff.mpr ⟨e, List.mem_of_getElem? (i := q - base) ?_, by simp [ho]⟩
  rw [List.getElem?_drop, Nat.add_sub_cancel' hbase, he]

/-! ## Flights -/

/-- The generation that a flight has read, as long as it may store. -/
def FlightPhase.generation? : FlightPhase τ → Option UInt64
  | .counted generation | .missed generation | .ready generation _ | .loading generation _ _ =>
    some generation
  | .storing load | .writing load _ => some load.generation
  | _ => none

/-- The version that a flight has read, as long as it may store. -/
def FlightPhase.version? : FlightPhase τ → Option UInt64
  | .ready _ version | .loading _ version _ => version
  | .storing load | .writing load _ => load.version
  | _ => none

/-- The start of the loader of a flight, as long as it may store. -/
def FlightPhase.startedAt? : FlightPhase τ → Option Nat
  | .loading _ _ startedAt => some startedAt
  | .storing load | .writing load _ => some load.startedAt
  | _ => none

/-- What a flight has read was current at a step before its loader was started, and the generation
still is while the flight writes. -/
structure FlightInv (history : List (CacheEvent τ)) (shared : Shared) (f : Flight τ) : Prop where
  counted : ∀ generation, f.phase.generation? = some generation → ∃ base, f.createdAt ≤ base ∧
    base ≤ history.length ∧
    generation = UInt64.ofNat (bumps f.cache f.stripe (history.take base)) ∧
    ∀ startedAt, f.phase.startedAt? = some startedAt → base ≤ startedAt
  created : f.createdAt ≤ history.length
  current : ∀ load envelope, f.phase = .writing load envelope →
    load.generation = shared.generation f.cache f.stripe
  version : ∀ version, f.phase.version? = some version → ∃ base, base ≤ history.length ∧
    version ≤ shared.versions f.key ∧
    (∀ q, base ≤ q → Seen history q (.applied f.key) → version < shared.versions f.key) ∧
    ∀ startedAt, f.phase.startedAt? = some startedAt → base ≤ startedAt

/-- A flight that does not move keeps its invariant if no stripe that it has is mutated. -/
theorem FlightInv.frame (h : FlightInv history s.shared f) (hstep : Steps cfg s input e.output s')
    (hwriting : ∀ load envelope, f.phase = .writing load envelope →
      s'.shared.generation f.cache f.stripe = s.shared.generation f.cache f.stripe) :
    FlightInv (history ++ [e]) s'.shared f := by
  have hlength : history.length ≤ (history ++ [e]).length := by simp
  refine ⟨fun generation hg => ?_, h.created.trans hlength, fun load envelope hp => ?_,
    fun version hv => ?_⟩
  · obtain ⟨base, hcreated, hbase, rfl, hstarted⟩ := h.counted generation hg
    exact ⟨base, hcreated, hbase.trans hlength, by
      rw [List.take_append_of_le_length hbase], hstarted⟩
  · rw [hwriting load envelope hp, h.current load envelope hp]
  · obtain ⟨base, hbase, hle, happlied, hstarted⟩ := h.version version hv
    obtain ⟨hmono, hnewer⟩ := hstep.changes.versions f.key
    refine ⟨base, hbase.trans hlength, UInt64.le_trans hle hmono, fun q hq hseen => ?_, hstarted⟩
    rcases seen_snoc hseen with hseen | ⟨-, ho⟩
    · exact UInt64.lt_of_lt_of_le (happlied q hq hseen) hmono
    · exact UInt64.lt_of_le_of_lt hle (hnewer ho)

/-- A flight goes on with what it has read, or does not store any more. -/
theorem FlightInv.move (h : FlightInv history shared f) (phase : FlightPhase τ)
    (hgeneration : ∀ g ∈ phase.generation?, g ∈ f.phase.generation?)
    (hversion : ∀ v ∈ phase.version?, v ∈ f.phase.version?)
    (hstarted : ∀ t ∈ phase.startedAt?, t ∈ f.phase.startedAt? ∨ t = history.length)
    (hcurrent : ∀ load envelope, phase = .writing load envelope →
      load.generation = shared.generation f.cache f.stripe) : FlightInv history shared
        { f with phase } := by
  have hbefore : ∀ base ≤ history.length, (∀ t ∈ f.phase.startedAt?, base ≤ t) →
      ∀ t ∈ phase.startedAt?, base ≤ t := by
    intro base hbase hold t ht
    rcases hstarted t ht with ht | rfl
    · exact hold t ht
    · exact hbase
  refine ⟨fun generation hg => ?_, h.created, hcurrent, fun version hv => ?_⟩
  · obtain ⟨base, hcreated, hbase, hcount, hold⟩ := h.counted generation (hgeneration generation hg)
    exact ⟨base, hcreated, hbase, hcount, hbefore base hbase hold⟩
  · obtain ⟨base, hbase, hle, happlied, hold⟩ := h.version version (hversion version hv)
    exact ⟨base, hbase, hle, happlied, hbefore base hbase hold⟩

/-- What a flight knows after its own step was current before the step. -/
theorem FlightMove.inv {config : Config τ} (hclock : s.clock = history.length)
    (hgeneration : s.shared.generation f.cache f.stripe =
      UInt64.ofNat (bumps f.cache f.stripe history))
    (h : FlightInv history s.shared f)
    (hmove : FlightMove config s index answer f phase shared output) :
    FlightInv history s.shared { f with phase } := by
  obtain ⟨cache, key, createdAt, before⟩ := f
  cases hmove with
  | count =>
    refine ⟨fun generation hg => ?_, h.created, nofun, nofun⟩
    cases hg
    exact ⟨history.length, h.created, le_refl _, by rw [List.take_length]; exact hgeneration, nofun⟩
  | miss hp =>
    cases hp
    exact h.move _ (fun _ => id) nofun nofun nofun
  | version hp hread =>
    cases hp
    have hunread := h.move (.ready _ none) (fun _ => id) nofun nofun nofun
    rcases hread with rfl | rfl
    · exact hunread
    · refine ⟨hunread.counted, h.created, nofun, fun version hv => ?_⟩
      cases hv
      refine ⟨history.length, le_refl _, UInt64.le_refl _, fun q hq hseen => ?_, nofun⟩
      obtain ⟨e, he, -⟩ := hseen
      exact absurd (List.getElem?_eq_some_iff.mp he).1 (not_lt.mpr hq)
  | start hp =>
    cases hp
    exact h.move _ (fun _ => id) (fun _ => id) (fun _ ht =>
      .inr ((Option.some.inj ht).symm.trans hclock)) nofun
  | load hp =>
    cases hp
    exact h.move _ (fun _ => id) (fun _ => id) (fun _ => .inl) nofun
  | @lock load hp =>
    cases hp
    dsimp only [Flight.stripe]
    rcases load.check_cases config (s.shared.generation cache (mutationStripeIndex key)) with
      ⟨err, hcheck, -⟩ | ⟨hcurrent, env, -, hcheck⟩ <;> rw [hcheck]
    · exact h.move _ nofun nofun nofun nofun
    · refine h.move _ (fun _ => id) (fun _ => id) (fun _ => .inl) fun load' _ hw => ?_
      obtain ⟨rfl, -⟩ := FlightPhase.writing.inj hw
      exact hcurrent
  | hit | negative | fail | write | skip | unlock | finish => exact h.move _ nofun nofun nofun nofun

/-! ## Mutations -/

/-- The stripes that a mutation has mutated. An `InvalidateVersion` may return before it comes to
them. -/
@[simp] def Mutation.mutated (m : Mutation τ) : List Nat :=
  match m.phase, m.kind with
  | .bumping todo, _ => (lockStripes m.keys).filter (· ∉ todo)
  | .forgetting _, _ | .acting, _ | .setting _, _ | .unlocking _ _, _ => lockStripes m.keys
  | .returned _ _, .version _ => []
  | .returned _ _, _ => lockStripes m.keys
  | .refused _, _ | .applying, _ | .locking _, _ => []

/-- The history shows the stripes that a mutation has mutated, between its call and its return. -/
structure MutationInv (history : List (CacheEvent τ)) (m : Mutation τ) : Prop where
  called : m.calledAt ≤ history.length
  mutated : ∀ stripe ∈ m.mutated, ∃ q, m.calledAt ≤ q ∧ q < history.length ∧
    (∀ returnedAt result, m.phase = .returned returnedAt result → q < returnedAt) ∧
    Seen history q (.bumps m.cache stripe)

theorem MutationInv.frame (h : MutationInv history m) (e : CacheEvent τ) :
    MutationInv (history ++ [e]) m := by
  have hlength : history.length ≤ (history ++ [e]).length := by simp
  refine ⟨h.called.trans hlength, fun stripe hs => ?_⟩
  obtain ⟨q, hcalled, hq, hreturned, hseen⟩ := h.mutated stripe hs
  exact ⟨q, hcalled, hq.trans_le hlength, hreturned, hseen.snoc e⟩

theorem MutationMove.inv {phase : MutationPhase} (hclock : s.clock = history.length)
    (h : MutationInv history m) (hmove : MutationMove s index m phase shared e.output) :
    MutationInv (history ++ [e]) { m with state, phase } := by
  -- a step that mutates nothing and does not return
  have hkeep : (∀ stripe ∈ Mutation.mutated { m with state, phase }, stripe ∈ m.mutated) →
      (∀ returnedAt result, phase ≠ .returned returnedAt result) →
      MutationInv (history ++ [e]) { m with state, phase } := by
    intro hsub hrunning
    refine ⟨(h.frame e).called, fun stripe hs => ?_⟩
    obtain ⟨q, hcalled, hq, -, hseen⟩ := (h.frame e).mutated stripe (hsub stripe hs)
    exact ⟨q, hcalled, hq, fun _ _ hp => absurd hp (hrunning _ _), hseen⟩
  generalize ho : e.output = output at hmove
  cases hmove with
  | apply | lock | locked => exact hkeep (by simp) nofun
  | answer _ kind =>
    obtain ⟨version, hkind⟩ := kind
    exact ⟨(h.frame e).called, by simp [hkind]⟩
  | @bump stripe todo hp =>
    refine ⟨(h.frame e).called, fun σ hσ => ?_⟩
    by_cases heq : σ = stripe
    · subst heq
      refine ⟨history.length, h.called, by simp, nofun, e, ?_, ho⟩
      simp
    · have hbefore : σ ∈ m.mutated := by
        simp only [Mutation.mutated, hp, List.mem_filter, List.mem_cons, decide_eq_true_eq,
          not_or] at hσ ⊢
        exact ⟨hσ.1, heq, hσ.2⟩
      obtain ⟨q, hcalled, hq, -, hseen⟩ := (h.frame e).mutated σ hbefore
      exact ⟨q, hcalled, hq, nofun, hseen⟩
  | bumped hp | forget hp | forgotten hp | act hp | read hp | set hp | unlock hp =>
    exact hkeep (by simp [hp]) nofun
  | done hp =>
    refine ⟨(h.frame e).called, fun stripe hs => ?_⟩
    have hbefore : stripe ∈ m.mutated := by
      simp only [Mutation.mutated] at hs ⊢
      split at hs <;> simp_all
    obtain ⟨q, hcalled, hq, -, hseen⟩ := h.mutated stripe hbefore
    refine ⟨q, hcalled, hq.trans_le (by simp), fun _ _ hr => ?_, hseen.snoc e⟩
    rw [← (MutationPhase.returned.inj hr).1, hclock]
    exact hq

/-! ## Runs -/

/-- What holds of a thread. -/
def ThreadInv (history : List (CacheEvent τ)) (shared : Shared) : Thread τ → Prop
  | .get _ => True
  | .flight f => FlightInv history shared f
  | .mutation m => MutationInv history m

/-- The invariant of the runs. -/
structure RunInv (history : List (CacheEvent τ)) (s : System τ) : Prop where
  locks : LockInv s
  clock : s.clock = history.length
  generation : ∀ cache stripe, s.shared.generation cache stripe =
    UInt64.ofNat (bumps cache stripe history)
  threads : ∀ (j : Nat) (t : Thread τ), s.threads[j]? = some t → ThreadInv history s.shared t

/-- A thread that does not move keeps its invariant: only the owner of a stripe mutates it. -/
theorem RunInv.frame (h : RunInv history s) (hstep : Steps cfg s input e.output s') {j : Nat}
    (ht : s.threads[j]? = some t) : ThreadInv (history ++ [e]) s'.shared t := by
  have hinv := h.threads j t ht
  cases t with
  | get g => trivial
  | mutation m => exact MutationInv.frame hinv e
  | flight f =>
    refine FlightInv.frame hinv hstep fun load envelope hp => ?_
    rw [hstep.changes.generation]
    split
    · rename_i ho
      rw [ho] at hstep
      obtain ⟨index, m, hm, hlock⟩ := hstep.changes.bumps_owner h.locks
      have hown := h.locks.owned j _ ht f.stripe (by simp [hp])
      rw [show (Thread.flight f).cache = f.cache from rfl, hlock] at hown
      cases hown
      rw [hm] at ht
      cases ht
    · simp

theorem Steps.clock (h : Steps cfg s input output s') : s'.clock = s.clock + 1 := by
  cases h <;> rfl

theorem RunInv.step (h : RunInv history s) (hstep : Steps cfg s input e.output s') :
    RunInv (history ++ [e]) s' := by
  have hclock : s'.clock = s.clock + 1 := hstep.clock
  refine ⟨h.locks.step hstep, ?_, fun cache stripe => ?_, fun j t ht => ?_⟩
  · rw [hclock, h.clock, List.length_append, List.length_singleton]
  · rw [hstep.changes.generation, h.generation, bumps_append]
    by_cases ho : e.output = .bumps cache stripe <;> simp [bumps, ho]
  · cases hstep.origin ht with
    | kept before => exact h.frame hstep before
    | get | getMoved => trivial
    | mutation cache kind keys =>
      refine ⟨by simp [h.clock], ?_⟩
      rcases checkMutation_phase (cfg cache) kind keys with ⟨err, hp⟩ | hp | ⟨hp, -⟩ <;> simp [hp]
    | created => exact ⟨nofun, by simp [h.clock], nofun, nofun⟩
    | flightMoved before move =>
      refine FlightInv.frame (move.inv h.clock (h.generation _ _) (h.threads j _ before)) hstep
        fun _ _ _ => ?_
      rw [hstep.changes.generation, if_neg (move.output_ne_bumps _ _)]
      simp
    | mutationMoved before move => exact move.inv h.clock (h.threads j _ before)

theorem inv_of_run (h : (machine sf cfg).Run history s) : RunInv history s := by
  refine h.invariant (I := RunInv) ?_ fun history s i hinv _ => hinv.step (exec_steps sf cfg s i)
  rintro _ rfl
  exact ⟨⟨by simp [System.new], by simp [System.new]⟩, rfl, fun _ _ => rfl, by simp [System.new]⟩

/-- The mutation of a key that has returned has mutated its stripe. -/
theorem Mutation.mem_mutated (hkey : key ∈ m.keys) (hkind : ∀ version, m.kind ≠ .version version)
    {returnedAt : Nat}
    (hp : m.phase = .returned returnedAt result) : mutationStripeIndex key ∈ m.mutated := by
  have hmem : mutationStripeIndex key ∈ lockStripes m.keys := mem_lockStripes.mpr ⟨key, hkey, rfl⟩
  unfold mutated
  split <;> simp_all

/-- Two counts that agree modulo `2 ^ 64` and differ by less are equal. -/
theorem eq_zero_of_ofNat_eq {n k : Nat} (h : UInt64.ofNat n = UInt64.ofNat (n + k))
    (hk : k < 2 ^ 64) : k = 0 := by
  have hmod := congrArg UInt64.toNat h
  rw [UInt64.toNat_ofNat', UInt64.toNat_ofNat'] at hmod
  omega

section

variable (h : RunInv history s)
  (hstep : Changes cfg s input (.stores c key createdAt startedAt) shared)

include h hstep

/-- The loader of a flight that writes was started after every mutation of the stripe, if there were
fewer than `2 ^ 64` since the flight was created: two equal generations are no mutation in
between. -/
theorem RunInv.started_after_bump
    (hfew : bumps c (mutationStripeIndex key) (history.drop createdAt) < 2 ^ 64)
    (hseen : Seen history q (.bumps c (mutationStripeIndex key))) : q < startedAt := by
  cases hstep with
  | @store index _ f load envelope hf hp _ =>
    have hflight : FlightInv history s.shared f := h.threads index _ hf
    obtain ⟨base, hcreated, -, hcount, hstarted⟩ :=
      hflight.counted load.generation (by rw [hp]; rfl)
    have hnone : bumps f.cache f.stripe (history.drop base) = 0 := by
      have hcurrent := hflight.current load envelope hp
      rw [h.generation, hcount, ← bumps_take_drop _ _ base history] at hcurrent
      refine eq_zero_of_ofNat_eq hcurrent (lt_of_le_of_lt ?_ hfew)
      exact List.Sublist.countP_le (List.drop_sublist_drop_left history hcreated)
    refine lt_of_lt_of_le ?_ (hstarted _ (by rw [hp]; rfl))
    by_contra hge
    exact absurd hnone (bumps_drop_pos (not_lt.mp hge) hseen).ne'

/-- The loader of a versioned flight that writes was started after every applied invalidation of the
key: the version at the backend is the one that the flight has read. -/
theorem RunInv.started_after_applied (hversioned : (cfg c).versioned = true)
    (hseen : Seen history q (.applied key)) : q < startedAt := by
  cases hstep with
  | @store index _ f load envelope hf hp hadmitted =>
    have hflight : FlightInv history s.shared f := h.threads index _ hf
    have hversion : load.version = some (s.shared.versions f.key) := by
      simpa [Load.admitted, hversioned] using hadmitted
    obtain ⟨base, -, -, happlied, hstarted⟩ := hflight.version _ (by rw [hp]; exact hversion)
    refine lt_of_lt_of_le ?_ (hstarted _ (by rw [hp]; rfl))
    by_contra hge
    exact absurd (happlied q (not_lt.mp hge) hseen) (UInt64.lt_irrefl _)

end

/-- **No stale write.** When a flight writes what its loader has returned, the loader was started
after every mutation of the key that has returned before had taken effect (there were fewer than
`2 ^ 64` mutations of the stripe since the flight was created), and after every invalidation that
was applied at the backend before. -/
theorem no_stale_write {history before after : List (CacheEvent τ)} {s : System τ}
    {e : CacheEvent τ}
    {c createdAt startedAt : Nat} {key : String} (hrun : (machine sf cfg).Run history s)
    (he : history = before ++ e :: after) (hstore : e.output = .stores c key createdAt startedAt) :
    (∀ (j : Nat) (m : Mutation τ) (returnedAt : Nat) (result : Except Error Answered),
      e.pre.threads[j]? = some (.mutation m) → m.cache = c → key ∈ m.keys →
        (∀ version, m.kind ≠ .version version) →
      m.phase = .returned returnedAt result →
        bumps c (mutationStripeIndex key) (before.drop createdAt) < 2 ^ 64 →
      ∃ q, m.calledAt ≤ q ∧ q < returnedAt ∧ q < startedAt) ∧
    ((cfg c).versioned = true → ∀ q, Seen before q (.applied key) → q < startedAt) := by
  obtain ⟨hbefore, -, hevent⟩ := hrun.split he
  have hinv := inv_of_run hbefore
  have hsteps : Steps cfg e.pre e.input e.output ((machine sf cfg).exec e.pre e.input).2 := by
    rw [hevent]
    exact exec_steps sf cfg e.pre e.input
  rw [hstore] at hsteps
  refine ⟨fun j m returnedAt result hm hcache hkey hkind hreturned hfew => ?_,
    fun hversioned q hseen => hinv.started_after_applied hsteps.changes hversioned hseen⟩
  obtain ⟨q, hcalled, -, hq, hseen⟩ :=
    (hinv.threads j _ hm : MutationInv before m).mutated _
    (Mutation.mem_mutated hkey hkind hreturned)
  rw [hcache] at hseen
  exact ⟨q, hcalled, hq returnedAt result hreturned,
    hinv.started_after_bump hsteps.changes hfew hseen⟩

/-! ## Runs of one key -/

namespace OneKey

/-- One cache of bytes, without versions. -/
def config (_ : Nat) : Config (List UInt8) :=
  ⟨⟨.ok, .ok⟩, ⟨0, false, none, .other "negative"⟩, false⟩

/-- Nothing fails. -/
def fine : Answer (List UInt8) := ⟨.ok, .ok [], none⟩

/-- The stripe of the key. -/
def stripe : Nat := mutationStripeIndex "k"

theorem lockStripes_key : lockStripes ["k"] = [stripe] := by simp [lockStripes, stripe]

theorem validateKey_key : validateKey "k" = true := by decide +kernel

/-- A state of a run. -/
def Reached (s : System (List UInt8)) : Prop := ∃ history, (machine .map config).Run history s

variable {s : System (List UInt8)}

/-- A thread takes a step. -/
theorem Reached.step (h : Reached s) (index : Nat) (t : Thread (List UInt8))
    (move : Move (List UInt8)) (ht : s.threads[index]? = some t)
    (hstep : t.step .map config s index fine = some move) : Reached (s.moved index move) := by
  obtain ⟨history, hrun⟩ := h
  refine hrun.next (.step index fine) trivial ?_
  simp [machine, System.exec, ht, hstep]

/-- An invalidation of the key. -/
def invalidation (calledAt : Nat) (phase : MutationPhase) : Mutation (List UInt8) :=
  ⟨0, .invalidate, ["k"], calledAt, none, phase⟩

/-- The system with an invalidation that was called last. -/
def invalidating (threads : List (Thread (List UInt8))) (calledAt : Nat) (phase : MutationPhase)
    (shared : Shared) (clock : Nat) : System (List UInt8) :=
  ⟨shared, threads ++ [.mutation (invalidation calledAt phase)], clock⟩

variable {threads : List (Thread (List UInt8))}

theorem Reached.advance {calledAt clock : Nat} {phase : MutationPhase}
    (h : Reached (invalidating threads calledAt phase shared clock)) (phase' : MutationPhase)
    (shared' : Shared) (hstep : ∃ output, (invalidation calledAt phase).step .map (config 0)
      (invalidating threads calledAt phase shared clock) threads.length fine =
        some ⟨.mutation (invalidation calledAt phase'), shared', [], output⟩) :
    Reached (invalidating threads calledAt phase' shared' (clock + 1)) := by
  obtain ⟨output, hstep⟩ := hstep
  have hnext := h.step threads.length (.mutation (invalidation calledAt phase)) _
    (by simp [invalidating]) hstep
  simpa [System.moved, invalidating] using hnext

/-- The key is free: no entry, no flight, no lock. -/
structure Free (s : Shared) : Prop where
  entry : s.entries "k" = none
  lock : s.lock 0 stripe = none
  group : s.group 0 "k" = none

/-- The invalidation of a key whose stripe is free returns. -/
theorem Reached.invalidate (h : Reached s) (hlock : s.shared.lock 0 stripe = none) :
    ∃ shared result,
      Reached (invalidating s.threads s.clock (.returned (s.clock + 9) result) shared
        (s.clock + 10)) ∧
      Free shared ∧ shared.generation 0 stripe = s.shared.generation 0 stripe + 1 := by
  have hcalled : Reached (invalidating s.threads s.clock (.locking [stripe]) s.shared
      (s.clock + 1)) := by
    obtain ⟨history, hrun⟩ := h
    refine hrun.next (.mutate 0 .invalidate ["k"]) trivial ?_
    simp [machine, System.exec, checkMutation, validateKey_key, lockStripes_key, invalidating,
      invalidation, config]
  let locked := s.shared.setLock 0 stripe (some s.threads.length)
  let bumped := locked.bump 0 stripe
  let forgotten := bumped.setFlight 0 "k" none
  let deleted := forgotten.delete ["k"]
  let result : Except Error Answered := .ok (.count (forgotten.deleted ["k"]))
  have hlocked := hcalled.advance (.locking []) locked
    ⟨.silent, by simp only [Mutation.step, invalidation, invalidating, hlock]; rfl⟩
  have hbumping := hlocked.advance (.bumping [stripe]) locked ⟨.silent, by
    rw [← lockStripes_key]; rfl⟩
  have hbumped := hbumping.advance (.bumping []) bumped ⟨.bumps 0 stripe, rfl⟩
  have hforgetting := hbumped.advance (.forgetting ["k"]) bumped ⟨.silent, rfl⟩
  have hforgotten := hforgetting.advance (.forgetting []) forgotten ⟨.silent, rfl⟩
  have hacting := hforgotten.advance .acting forgotten ⟨.silent, rfl⟩
  have hdeleted := hacting.advance (.unlocking [stripe] result) deleted
    ⟨.silent, by rw [← List.reverse_singleton, ← lockStripes_key]; rfl⟩
  have hunlocked := hdeleted.advance (.unlocking [] result) (deleted.setLock 0 stripe none)
    ⟨.silent, rfl⟩
  have hreturned := hunlocked.advance (.returned (s.clock + 9) result)
    (deleted.setLock 0 stripe none) ⟨.silent, rfl⟩
  refine ⟨_, _, hreturned, ⟨?_, ?_, ?_⟩, ?_⟩
  · simp [Shared.setLock, Shared.delete, deleted]
  · simp
  · simp [Shared.setLock, Shared.delete, Shared.setFlight, Shared.setGroup, deleted, forgotten]
  · simp [Shared.setLock, Shared.delete, Shared.setFlight, Shared.setGroup, deleted, forgotten,
      bumped, locked]

/-- A flight of the key. -/
def flight (createdAt : Nat) (phase : FlightPhase (List UInt8)) : Flight (List UInt8) :=
  ⟨0, "k", createdAt, phase⟩

/-- The flight at the index moves. -/
theorem Reached.fly (shared' : Shared) {clock : Nat}
    (h : Reached ⟨shared, threads, clock⟩) (index createdAt : Nat)
    (phase phase' : FlightPhase (List UInt8))
    (hf : threads[index]? = some (.flight (flight createdAt phase)))
    (hstep : (flight createdAt phase).step .map (config 0) ⟨shared, threads, clock⟩ index fine =
      some ⟨.flight (flight createdAt phase'), shared', [], .silent⟩) :
    Reached ⟨shared', threads.set index (.flight (flight createdAt phase')), clock + 1⟩ := by
  have hnext := h.step index _ _ hf hstep
  simpa [System.moved] using hnext

/-- A `Get` of a free key creates a flight, whose loader is started. -/
theorem Reached.get (h : Reached s) (hfree : Free s.shared) :
    ∃ shared call, Reached ⟨shared, s.threads ++ [.get call,
      .flight (flight (s.clock + 2) (.loading (s.shared.generation 0 stripe) none (s.clock + 6)))],
        s.clock + 7⟩ ∧
    shared.lock 0 stripe = none ∧ shared.generation = s.shared.generation := by
  have hcalled : Reached ⟨s.shared, s.threads ++ [.get ⟨0, "k", s.clock, .reading⟩],
      s.clock + 1⟩ := by
    obtain ⟨history, hrun⟩ := h
    refine hrun.next (.get 0 "k") trivial ?_
    simp [machine, System.exec, newGet, validateKey_key]
  have hmissed : Reached ⟨s.shared, s.threads ++ [.get ⟨0, "k", s.clock, .joining⟩],
      s.clock + 2⟩ := by
    have hnext := hcalled.step s.threads.length (.get ⟨0, "k", s.clock, .reading⟩)
      ⟨.get ⟨0, "k", s.clock, .joining⟩, s.shared, [], .silent⟩ (by simp)
      (by simp [Thread.step, GetCall.step, Config.read, hfree.entry, fine])
    simpa [System.moved] using hnext
  let shared := s.shared.setFlight 0 "k" (some (s.threads.length + 1))
  let call : GetCall (List UInt8) := ⟨0, "k", s.clock, .waiting (s.threads.length + 1)⟩
  have hcreated : Reached ⟨shared, s.threads ++
      [.get call, .flight (flight (s.clock + 2) .created)], s.clock + 3⟩ := by
    have hnext := hmissed.step s.threads.length (.get ⟨0, "k", s.clock, .joining⟩)
      ⟨.get call, shared, [.flight (flight (s.clock + 2) .created)], .silent⟩ (by simp)
      (by simp [Thread.step, GetCall.step, Singleflight.map, hfree.group, call, shared, flight,
        Shared.setFlight])
    simpa [System.moved] using hnext
  let generation := s.shared.generation 0 stripe
  have hcounted := hcreated.fly shared (s.threads.length + 1) (s.clock + 2) .created
    (.counted generation)
    (by simp) rfl
  have hrechecked := hcounted.fly shared (s.threads.length + 1) (s.clock + 2) (.counted generation)
    (.missed generation) (by simp)
    (by simp [Flight.step, flight, Config.read, hfree.entry, fine, shared, Shared.setFlight,
      Shared.setGroup])
  have hready := hrechecked.fly shared (s.threads.length + 1) (s.clock + 2) (.missed generation)
    (.ready generation none) (by simp) rfl
  have hloading := hready.fly shared (s.threads.length + 1) (s.clock + 2) (.ready generation none)
    (.loading generation none (s.clock + 6)) (by simp) rfl
  refine ⟨shared, call, ?_, hfree.lock, rfl⟩
  simpa using hloading

/-- A flight whose generation is current stores what its loader returns. -/
theorem Reached.store (h : Reached s) (index : Nat)
    (hf : s.threads[index]? = some (.flight (flight createdAt
      (.loading (s.shared.generation 0 stripe) none startedAt))))
    (hlock : s.shared.lock 0 stripe = none) :
    ∃ (before : List (CacheEvent (List UInt8))) (e : CacheEvent (List UInt8)) (s' : System
      (List UInt8)),
      (machine .map config).Run (before ++ [e]) s' ∧ e.output = .stores 0 "k" createdAt startedAt ∧
      before.length = s.clock + 2 ∧
      ∀ j t, j ≠ index → s.threads[j]? = some t → e.pre.threads[j]? = some t := by
  have hlt : index < s.threads.length := (List.getElem?_eq_some_iff.mp hf).1
  let load : Load (List UInt8) := ⟨s.shared.generation 0 stripe, none, startedAt, .ok []⟩
  have hloaded := h.fly s.shared index createdAt _ (.storing load) hf rfl
  have hstoring : (s.threads.set index (.flight (flight createdAt (.storing load))))[index]? =
      some (.flight (flight createdAt (.storing load))) := List.getElem?_set_self hlt
  have hcheck : load.check (config 0) (s.shared.generation 0 stripe) =
      .writing load [envelopeValue] := by
    simp [Load.check, Load.envelope, load, config, Except.map]
  have hwriting := hloaded.fly (s.shared.setLock 0 stripe (some index)) index createdAt
    (.storing load)
    (.writing load [envelopeValue]) hstoring
    (by simp only [Flight.step, flight, ← stripe.eq_1, hlock, hcheck])
  obtain ⟨before, hrun⟩ := hwriting
  refine ⟨before, _, _, hrun.step (.step index fine) trivial, ?_, (inv_of_run hrun).clock.symm,
    fun j t hj ht => ?_⟩
  · simp [machine, System.exec, hlt, Thread.step, Flight.step, flight, fine, Reply.applied,
      Load.admitted, config, load]
  · simp [List.getElem?_set_ne (Ne.symm hj), ht]

theorem reached_new : Reached System.new := ⟨[], .init rfl⟩

theorem free_new : Free (System.new (τ := List UInt8)).shared := ⟨rfl, rfl, rfl⟩

/-- A loader that is started after an invalidation stores its value. -/
theorem stored_after_invalidation : ∃ (history before after : List (CacheEvent (List UInt8)))
    (s : System (List UInt8)) (e : CacheEvent (List UInt8)), (machine .map config).Run history s ∧
      history = before ++ e :: after ∧ e.output = .stores 0 "k" 12 16 ∧
      (∃ result, e.pre.threads[0]? = some (.mutation (invalidation 0 (.returned 9 result)))) ∧
      ∃ q, 0 ≤ q ∧ q < 9 ∧ q < 16 := by
  obtain ⟨shared, result, hinvalidated, hfree, -⟩ := reached_new.invalidate rfl
  obtain ⟨shared', call, hloading, hlock, hgeneration⟩ := hinvalidated.get hfree
  obtain ⟨before, e, s', hrun, hstore, hlength, hkept⟩ :=
    hloading.store 2 (by rw [hgeneration]; rfl) hlock
  have hm := hkept 0 (.mutation (invalidation 0 (.returned 9 result))) (by decide) rfl
  have hfew : bumps 0 (mutationStripeIndex "k") (before.drop 12) < 2 ^ 64 := by
    refine lt_of_le_of_lt (List.countP_le_length.trans (List.drop_sublist ..).length_le) ?_
    rw [show before.length = 19 from hlength]
    decide
  exact ⟨_, before, [], s', e, hrun, rfl, hstore, ⟨result, hm⟩,
    (no_stale_write hrun rfl hstore).1 0 _ 9 result hm rfl List.mem_cons_self nofun rfl hfew⟩

/-- Any number of invalidations while the loader runs. -/
theorem reached_invalidations (n : Nat) : ∃ s, Reached s ∧ s.shared.lock 0 stripe = none ∧
    s.shared.generation 0 stripe = UInt64.ofNat (n + 1) ∧
    s.threads[1]? = some (.flight (flight 2 (.loading 0 none 6))) ∧ 6 < s.clock ∧
    ∃ j ≠ 1, ∃ calledAt > 6, ∃ returnedAt result,
      s.threads[j]? = some (.mutation (invalidation calledAt (.returned returnedAt result))) := by
  induction n with
  | zero =>
    obtain ⟨shared, call, hloading, hlock, hgeneration⟩ := reached_new.get free_new
    obtain ⟨shared', result, hreached, hfree, hbumped⟩ := hloading.invalidate hlock
    refine ⟨_, hreached, hfree.lock, ?_, rfl, (by decide : 6 < 17),
      2, by decide, 7, by decide, 16, result, rfl⟩
    rw [invalidating, hbumped, hgeneration]
    rfl
  | succ n ih =>
    obtain ⟨s, hreached, hlock, hgeneration, hflight, hclock, -⟩ := ih
    obtain ⟨shared, result, hreached, hfree, hbumped⟩ := hreached.invalidate hlock
    have hlt : 1 < s.threads.length := (List.getElem?_eq_some_iff.mp hflight).1
    refine ⟨_, hreached, hfree.lock, ?_,
      ?_, by simp only [invalidating]; omega, s.threads.length, by omega, s.clock, hclock,
      s.clock + 9, result, by simp [invalidating]⟩
    · rw [invalidating, hbumped, hgeneration, UInt64.ofNat_add (n + 1) 1]
      rfl
    · rw [invalidating, List.getElem?_append_left hlt]
      exact hflight

/-- After `2 ^ 64` invalidations the generation is the one that the flight has read. -/
theorem stored_after_wrap :
    ∃ (history before after : List (CacheEvent (List UInt8))) (s : System (List UInt8))
    (e : CacheEvent (List UInt8)) (createdAt startedAt j : Nat) (m : Mutation (List UInt8))
    (returnedAt : Nat) (result : Except Error Answered),
    (machine .map config).Run history s ∧ history = before ++ e :: after ∧
      e.output = .stores 0 "k" createdAt startedAt ∧ e.pre.threads[j]? = some (.mutation m) ∧
      m.cache = 0 ∧ m.kind = .invalidate ∧ "k" ∈ m.keys ∧ m.phase = .returned returnedAt result ∧
      startedAt < m.calledAt := by
  obtain ⟨s, hreached, hlock, hgeneration, hflight, -, j, hj, calledAt, hcalled, returnedAt,
    result, hm⟩ := reached_invalidations (2 ^ 64 - 1)
  have hwrapped : s.shared.generation 0 stripe = 0 := hgeneration
  obtain ⟨before, e, s', hrun, hstore, -, hkept⟩ :=
    hreached.store 1 (by rw [hwrapped]; exact hflight) hlock
  exact ⟨_, before, [], s', e, 2, 6, j, _, returnedAt, result, hrun, rfl, hstore,
    hkept j _ hj hm, rfl, rfl, List.mem_cons_self, rfl, hcalled⟩

end OneKey

end Keelith.Cache

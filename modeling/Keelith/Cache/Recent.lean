import Keelith.Cache.Fresh

/-!
# Reads after an invalidation

`Invalidate` forgets the flights of its keys before it deletes their entries. A flight that is
created in between reads the old entry in its recheck, and calls of `Get` that come after the
invalidation can still join it (`Rechecked.stale_read`). `no_stale_read`: without such a recheck,
they return nothing older than the invalidation.

* `Source.Recent`: a value was written, and its loader was started, after a step.
* `InvalidationInv`: how far an invalidation is. What is then recent: the flight that can be joined,
  the entry.
* `Quiet`: no recheck of the key hits while an invalidation of the key is between the two.
-/

namespace Keelith.Cache

variable {τ : Type} {sf : Singleflight} {cfg : Nat → Config τ} {input : Input τ} {answer : Answer τ}

/-! ## Recent values -/

/-- The value was written and its loader was started at the step `since` or later. -/
def Source.Recent (since : Nat) (source : Source) : Prop :=
  (∀ writtenAt, source.writtenAt = some writtenAt → since ≤ writtenAt) ∧
    ∀ loadedAt, source.loadedAt = some loadedAt → since ≤ loadedAt

/-- The value of a result is recent. -/
def recentResult (since : Nat) : Result τ → Prop
  | .ok (_, source) => source.Recent since
  | .error _ => True

/-- What a flight has started or found is recent. -/
def FlightPhase.Recent (since : Nat) : FlightPhase τ → Prop
  | .loading _ _ startedAt => since ≤ startedAt
  | .storing load | .writing load _ | .unlocking load _ => since ≤ load.startedAt
  | .finishing result | .finished result => recentResult since result
  | .created | .counted _ | .missed _ | .ready _ _ => True

/-- The flight at the index is one of the key, and recent. -/
def Joins (since : Nat) (key : String) (s : System τ) (index : Nat) : Prop :=
  ∃ f, s.threads[index]? = some (.flight f) ∧ f.key = key ∧ f.phase.Recent since

/-- The flight that can be joined is recent. -/
def GroupRecent (since : Nat) (key : String) (s : System τ) : Prop :=
  ∀ index, s.shared.group 0 key = some index → Joins since key s index

/-- The entry is recent. -/
def EntryRecent (since : Nat) (key : String) (s : System τ) : Prop :=
  ∀ e, s.shared.entries key = some e → e.source.Recent since

/-- What a call of `Get` waits for or returns is recent. -/
def GetRecent (since : Nat) (s : System τ) (g : GetCall τ) : Prop :=
  match g.phase with
  | .waiting index => Joins since g.key s index
  | .returned result => recentResult since result
  | .reading | .joining => True

variable {since : Nat} {output : Observation} {shared : Shared} {key : String} {s s' : System τ}
  {index : Nat} {m : Mutation τ} {phase : MutationPhase} {history : List (CacheEvent τ)}

theorem Load.recent_result {load : Load τ} (h : since ≤ load.startedAt) (failOpen : Bool)
    (writeErr : Option Error) : recentResult since (load.result failOpen writeErr) := by
  have hsource : Source.Recent since ⟨none, some load.startedAt⟩ :=
    ⟨nofun, fun _ hl => Option.some.inj hl ▸ h⟩
  unfold result
  split
  · exact hsource
  · split
    · exact hsource
    · trivial
  · trivial
  · split <;> trivial

variable {f : Flight τ} {j : Nat} {i : Input τ}

/-- The input lets a flight of the key recheck, and there is a value. -/
def Input.rechecks (cfg : Nat → Config τ) (key : String) (s : System τ) : Input τ → Bool
  | .step index answer =>
    match s.threads[index]? with
    | some (.flight ⟨c, k, _, .counted _⟩) =>
      match (cfg c).read answer.reply (s.shared.entries k) with
      | .hit _ _ => k == key
      | _ => false
    | _ => false
  | .get _ _ | .mutate _ _ _ | .expire _ => false

/-- A recent flight stays recent, if the entry is recent when it rechecks. -/
theorem FlightMove.recent {phase : FlightPhase τ} (h : f.phase.Recent since)
    (hclock : since ≤ s.clock) (hf : s.threads[index]? = some (.flight f))
    (hread : (Input.step index answer).rechecks cfg f.key s = true → EntryRecent since f.key s)
    (hmove : FlightMove (cfg f.cache) s index answer f phase shared output) :
    phase.Recent since := by
  cases hmove with
  | count | negative | fail | miss | version => trivial
  | @hit generation _ _ hp read =>
    obtain ⟨e, he, rfl⟩ := Config.read_hit read
    refine hread ?_ e he
    obtain ⟨c, k, createdAt, phase⟩ := f
    obtain rfl : phase = .counted generation := hp
    simp [Input.rechecks, hf, show (cfg c).read _ (s.shared.entries k) = _ from read]
  | start => exact hclock
  | load hp | write hp | skip hp | finish hp =>
    rw [hp] at h
    exact h
  | @lock load hp =>
    rw [hp] at h
    rcases load.check_cases (cfg f.cache) (s.shared.generation f.cache f.stripe) with
      ⟨err, hcheck, -⟩ | ⟨-, envelope, -, hcheck⟩
    · rw [hcheck]
      exact h
    · rw [hcheck]
      exact h
  | unlock hp =>
    rw [hp] at h
    exact Load.recent_result h _ _

/-- The flight at an index after a step. -/
theorem Joins.step (h : Joins since key s index) (hclock : since ≤ s.clock)
    (hread : input.rechecks cfg key s = true → EntryRecent since key s)
    (hstep : Steps cfg s input output s') : Joins since key s' index := by
  obtain ⟨f, hf, rfl, hrecent⟩ := h
  have hlt : index < s.threads.length := (List.getElem?_eq_some_iff.mp hf).1
  cases hstep with
  | idle | expire => exact ⟨f, hf, rfl, hrecent⟩
  | get | mutate => exact ⟨f, getElem?_snoc.mpr (.inl hf), rfl, hrecent⟩
  | @getMove i _ _ _ _ _ thread =>
    have hne : i ≠ index := by
      rintro rfl
      rw [hf] at thread
      cases thread
    refine ⟨f, ?_, rfl, hrecent⟩
    rw [List.getElem?_append_left (by simpa using hlt), List.getElem?_set_ne hne]
    exact hf
  | @flightMove i answer f' phase _ _ thread move =>
    by_cases hi : i = index
    · subst hi
      obtain rfl := Thread.flight.inj (Option.mem_unique thread hf)
      exact ⟨{ f' with phase }, List.getElem?_set_self hlt, rfl,
        move.recent hrecent hclock hf hread⟩
    · exact ⟨f, by rw [List.getElem?_set_ne hi]; exact hf, rfl, hrecent⟩
  | @mutationMove i _ _ _ _ _ _ thread =>
    have hne : i ≠ index := by
      rintro rfl
      rw [hf] at thread
      cases thread
    exact ⟨f, by rw [List.getElem?_set_ne hne]; exact hf, rfl, hrecent⟩

@[simp] theorem Shared.setFlight_group (s : Shared) (cache c : Nat) (key k : String)
    (flight : Option Nat) :
    (s.setFlight cache key flight).group c k = if c = cache ∧
      k = key then flight else s.group c k :=
  update_update ..

/-- The flight that can be joined could be joined before, or it was created by this step. -/
theorem Steps.group (h : Steps cfg s input output s') {c : Nat}
    (hgroup : s'.shared.group c key = some index) :
    s.shared.group c key = some index ∨ s'.threads[index]? =
      some (.flight ⟨c, key, s.clock, .created⟩) := by
  cases h with
  | idle | get | mutate | expire => exact .inl hgroup
  | getMove _ move =>
    rcases move.frame with ⟨rfl, -⟩ | ⟨rfl, rfl⟩
    · exact .inl hgroup
    · rw [Shared.setFlight_group] at hgroup
      split at hgroup
      · rename_i heq
        obtain ⟨rfl, rfl⟩ := heq
        cases hgroup
        exact .inr (by simp)
      · exact .inl hgroup
  | flightMove _ move =>
    cases move with
    | finish _ removed =>
      rcases removed with rfl | rfl
      · exact .inl hgroup
      · rw [Shared.setFlight_group] at hgroup
        split at hgroup
        · cases hgroup
        · exact .inl hgroup
    | _ => exact .inl hgroup
  | mutationMove _ move =>
    cases move with
    | apply _ applies | answer _ _ applies => cases applies <;> exact .inl hgroup
    | act _ acts | set _ _ acts => cases acts <;> exact .inl hgroup
    | forget =>
      rw [Shared.setFlight_group] at hgroup
      split at hgroup
      · cases hgroup
      · exact .inl hgroup
    | _ => exact .inl hgroup

theorem GroupRecent.step (h : GroupRecent since key s) (hclock : since ≤ s.clock)
    (hread : input.rechecks cfg key s = true → EntryRecent since key s)
    (hstep : Steps cfg s input output s') : GroupRecent since key s' := by
  intro index hgroup
  rcases hstep.group hgroup with hgroup | hcreated
  · exact (h index hgroup).step hclock hread hstep
  · exact ⟨_, hcreated, rfl, trivial⟩

/-- An entry after a deletion was there before. -/
theorem Shared.entries_delete {s : Shared} {keys : List String} {e : Entry}
    (h : (s.delete keys).entries key = some e) : s.entries key = some e := by
  simp only [delete] at h
  split at h
  · cases h
  · exact h

/-- An entry was there before and is not written over, or it is a value that a mutation writes, or a
flight writes it. -/
theorem Changes.entries (h : Changes cfg s input output shared) {e : Entry}
    (he : shared.entries key = some e) :
    (s.shared.entries key = some e ∧ ∀ c createdAt startedAt,
      output ≠ .stores c key createdAt startedAt) ∨
      (∃ payload, e = ⟨envelopeValue :: payload, s.clock, none⟩) ∨
      ∃ (index : Nat) (answer : Answer τ) (f : Flight τ) (load : Load τ),
        input = .step index answer ∧
        s.threads[index]? = some (.flight f) ∧ f.phase = .writing load e.payload ∧
        e = ⟨e.payload, s.clock, some load.startedAt⟩ ∧
        output = .stores f.cache key f.createdAt load.startedAt := by
  cases h with
  | keep | lock | group | bump => exact .inl ⟨he, nofun⟩
  | delete | apply => exact .inl ⟨Shared.entries_delete he, nofun⟩
  | set k payload =>
    simp only [Shared.write, Function.update_apply] at he
    split at he
    · exact .inr (.inl ⟨payload, (Option.some.inj he).symm⟩)
    · exact .inl ⟨he, nofun⟩
  | @store index answer f load envelope thread phase =>
    simp only [Shared.write, Function.update_apply] at he
    split at he
    · rename_i hkey
      cases he
      exact .inr (.inr ⟨index, answer, f, load, rfl, thread, phase, rfl, by rw [hkey]⟩)
    · rename_i hkey
      refine .inl ⟨he, fun c createdAt startedAt houtput => hkey ?_⟩
      injection houtput with _ hsame
      exact hsame.symm

theorem EntryRecent.step (h : EntryRecent since key s) (hclock : since ≤ s.clock)
    (hstore : ∀ c createdAt startedAt, output = .stores c key createdAt startedAt →
      since ≤ startedAt) (hstep : Steps cfg s input output s') : EntryRecent since key s' := by
  intro e he
  have hwritten : ∀ writtenAt, some s.clock = some writtenAt → since ≤ writtenAt :=
    fun writtenAt hw => Option.some.inj hw ▸ hclock
  rcases hstep.changes.entries he with ⟨he, -⟩ | ⟨payload, rfl⟩ | ⟨_, _, f,
    load, -, -, -, he, houtput⟩
  · exact h e he
  · exact ⟨hwritten, nofun⟩
  · rw [he]
    exact ⟨hwritten, fun startedAt hl => Option.some.inj hl ▸ hstore _ _ _ houtput⟩

/-- What the call of `Get` at an index waits for or returns after a step, if the entry and the
flight that it can find are recent. -/
theorem getRecent_step {after : Nat}
    (hgroup : GroupRecent since key s) (hentry : EntryRecent since key s) (hclock : since ≤ s.clock)
    (hcaches : ∀ (j : Nat) (g : GetCall τ), s.threads[j]? = some (.get g) → g.cache = 0)
    (h : ∀ (j : Nat) (g : GetCall τ), s.threads[j]? = some (.get g) → g.key = key →
      after < g.calledAt → GetRecent since s g)
    (hstep : Steps cfg s input output s') {g : GetCall τ} (hg : s'.threads[j]? = some (.get g))
    (hkey : g.key = key) (hafter : after < g.calledAt) : GetRecent since s' g := by
  have hjoins : ∀ index, Joins since key s index → Joins since key s' index :=
    fun index hjoin => hjoin.step hclock (fun _ => hentry) hstep
  have hkeep : s.threads[j]? = some (.get g) → GetRecent since s' g := by
    intro hg
    have hrecent := h j g hg hkey hafter
    unfold GetRecent at hrecent ⊢
    split
    · rename_i hp
      rw [hp] at hrecent
      exact hkey ▸ hjoins _ (hkey ▸ hrecent)
    · rename_i hp
      rwa [hp] at hrecent
    · trivial
    · trivial
  cases hstep.origin hg with
  | kept before => exact hkeep before
  | get c k =>
    unfold newGet GetRecent
    by_cases hvalid : validateKey k = true
    · simp [hvalid]
    · simp [hvalid, recentResult]
  | @getMoved _ g' phase _ before move =>
    have hbefore := h j g' before hkey hafter
    generalize hshared : s'.shared = shared at move
    cases move with
    | hit _ read =>
      obtain ⟨e, he, rfl⟩ := Config.read_hit read
      exact hentry _ (hkey ▸ he)
    | negative | fail | miss | cancel => trivial
    | join _ joined =>
      rw [hcaches j g' before, show g'.key = key from hkey] at joined
      exact hkey ▸ hjoins _ (hgroup _ joined)
    | create _ alone =>
      have hcreated : s'.shared.group g'.cache g'.key = some s.threads.length := by
        rw [hshared]; simp
      rcases hstep.group hcreated with hgroup | hflight
      · rw [alone] at hgroup
        cases hgroup
      · exact ⟨_, hflight, rfl, trivial⟩
    | receive hp sent finished =>
      rw [GetRecent, hp] at hbefore
      obtain ⟨f, hf, -, hrecent⟩ := hbefore
      obtain rfl := Thread.flight.inj (Option.mem_unique sent hf)
      rw [finished] at hrecent
      exact hrecent

/-! ## Invalidations -/

/-- An invalidation of the key. -/
def Mutation.Invalidates (key : String) (m : Mutation τ) : Prop :=
  m.kind = .invalidate ∧ key ∈ m.keys

/-- Between `Forget` of the key and `Delete`. -/
@[simp] def MutationPhase.between (key : String) : MutationPhase → Bool
  | .forgetting todo => key ∉ todo
  | .acting => true
  | _ => false

/-- After a `Delete` without an error. -/
@[simp] def MutationPhase.deleted : MutationPhase → Bool
  | .unlocking _ (.ok _) | .returned _ (.ok _) => true
  | _ => false

/-- What is recent once an invalidation of the key has come so far. -/
structure InvalidationInv (key : String) (s : System τ) (m : Mutation τ) : Prop where
  group : m.phase.between key = true ∨ m.phase.deleted = true → GroupRecent m.calledAt key s
  entry : m.phase.deleted = true → EntryRecent m.calledAt key s
  gets : ∀ returnedAt answered, m.phase = .returned returnedAt (.ok answered) →
    ∀ (j : Nat) (g : GetCall τ),
    s.threads[j]? = some (.get g) → g.key = key → returnedAt < g.calledAt → GetRecent m.calledAt s g

section

variable (hinvalidates : m.Invalidates key) (h : MutationMove s index m phase shared output)

include hinvalidates h

theorem MutationMove.group (hphase : phase.between key = true ∨ phase.deleted = true) :
    (m.phase.between key = true ∨ m.phase.deleted = true) ∨ shared.group m.cache key = none := by
  obtain ⟨hkind, hkey⟩ := hinvalidates
  cases h with
  | apply | lock | locked | bump | read => simp at hphase
  | answer _ kind | set _ kind =>
    obtain ⟨_, hother⟩ := kind
    rw [hkind] at hother
    cases hother
  | bumped => simp [hkey] at hphase
  | @forget k todo hp =>
    by_cases heq : key = k
    · subst heq
      exact .inr (by simp)
    · have hmem : key ∉ todo := by simpa using hphase
      exact .inl (.inl (by simp [hp, heq, hmem]))
  | forgotten hp | act hp => exact .inl (.inl (by simp [hp]))
  | @unlock _ _ result hp | @done result hp =>
    refine .inl (.inr ?_)
    rw [hp]
    cases result with
    | ok => rfl
    | error => simp at hphase

theorem MutationMove.entry (hphase : phase.deleted = true) :
    m.phase.deleted = true ∨ shared.entries key = none := by
  obtain ⟨hkind, hkey⟩ := hinvalidates
  cases h with
  | apply | lock | locked | bump | read | bumped | forget | forgotten => cases hphase
  | answer _ kind | set _ kind =>
    obtain ⟨_, hother⟩ := kind
    rw [hkind] at hother
    cases hother
  | act _ acts =>
    cases acts with
    | keep kept =>
      obtain ⟨err, rfl⟩ := kept hkind
      cases hphase
    | write set =>
      rw [hkind] at set
      cases set
    | delete => exact .inr (by simp [Shared.delete, hkey])
  | @unlock _ _ result hp | @done result hp =>
    refine .inl ?_
    rw [hp]
    cases result with
    | ok => rfl
    | error => cases hphase

theorem MutationMove.returned {returnedAt : Nat} {result : Except Error Answered}
    (hp : phase = .returned returnedAt result) : returnedAt = s.clock := by
  cases h with
  | answer _ kind =>
    obtain ⟨version, hversion⟩ := kind
    rw [hinvalidates.1] at hversion
    cases hversion
  | done => exact (MutationPhase.returned.inj hp).1.symm
  | _ => cases hp

end

/-! ## Runs -/

/-- The input is a call of the one cache. -/
def Input.oneCache : Input τ → Bool
  | .get cache _ | .mutate cache _ _ => cache == 0
  | .step _ _ | .expire _ => true

/-- An invalidation of the key that is between `Forget` and `Delete`. -/
def Thread.between (key : String) : Thread τ → Bool
  | .mutation ⟨_, .invalidate, keys, _, _, phase⟩ => keys.contains key && phase.between key
  | _ => false

/-- There is one cache, no recheck of a flight of the key hits while an invalidation of the key is
between `Forget` and `Delete`, and there were fewer than `2 ^ 64` mutations of the stripe of the
key. -/
structure Quiet (cfg : Nat → Config τ) (key : String) (history : List (CacheEvent τ)) (s : System τ)
    (i : Input τ) : Prop where
  oneCache : i.oneCache = true
  recheck : i.rechecks cfg key s = true → ∀ t ∈ s.threads, t.between key = false
  few : bumps 0 (mutationStripeIndex key) history < 2 ^ 64

instance : Decidable (Quiet cfg key history s i) :=
  decidable_of_iff (i.oneCache = true ∧
    (i.rechecks cfg key s = true → ∀ t ∈ s.threads, t.between key = false) ∧
    bumps 0 (mutationStripeIndex key) history < 2 ^ 64)
    ⟨fun h => ⟨h.1, h.2.1, h.2.2⟩, fun h => ⟨h.oneCache, h.recheck, h.few⟩⟩

instance : Decidable (((machine sf cfg).assuming (Quiet cfg key)).may history s i) :=
  inferInstanceAs (Decidable (True ∧ Quiet cfg key history s i))

theorem Quiet.not_between (h : Quiet cfg key history s i) (hrechecks : i.rechecks cfg key s = true)
    (hm : s.threads[j]? = some (.mutation m)) (hinvalidates : m.Invalidates key) :
    m.phase.between key = false := by
  have hbetween := h.recheck hrechecks _ (List.mem_of_getElem? hm)
  obtain ⟨c, kind, keys, calledAt, state, phase⟩ := m
  obtain ⟨rfl, hmem⟩ : kind = .invalidate ∧ key ∈ keys := hinvalidates
  simpa [Thread.between, hmem] using hbetween

/-- The invariant of quiet runs. -/
structure RecentInv (key : String) (history : List (CacheEvent τ)) (s : System τ) : Prop where
  run : RunInv history s
  caches : ∀ (j : Nat) (t : Thread τ), s.threads[j]? = some t → t.cache = 0
  called : ∀ (j : Nat) (g : GetCall τ), s.threads[j]? = some (.get g) → g.calledAt < s.clock
  invalidations : ∀ (j : Nat) (m : Mutation τ), s.threads[j]? = some (.mutation m) →
    m.Invalidates key →
    InvalidationInv key s m

/-- A value that is stored after the deletion comes from a loader that was started after the
call. -/
theorem RecentInv.store {c createdAt startedAt : Nat}
    (h : RecentInv key history s) (hfew : bumps 0 (mutationStripeIndex key) history < 2 ^ 64)
    (hm : s.threads[j]? = some (.mutation m)) (hinvalidates : m.Invalidates key)
    (hdeleted : m.phase.deleted = true)
    (hchanges : Changes cfg s input (.stores c key createdAt startedAt) shared) :
    m.calledAt ≤ startedAt := by
  have hmutated : mutationStripeIndex key ∈ m.mutated := by
    have hmem : mutationStripeIndex key ∈ lockStripes m.keys :=
      mem_lockStripes.mpr ⟨key, hinvalidates.2, rfl⟩
    unfold Mutation.mutated
    unfold MutationPhase.deleted at hdeleted
    rw [hinvalidates.1]
    split at hdeleted
    · rename_i hp
      rw [hp]
      exact hmem
    · rename_i hp
      rw [hp]
      exact hmem
    · cases hdeleted
  obtain ⟨q, hcalled, -, -, hseen⟩ :=
    (h.run.threads j _ hm : MutationInv history m).mutated _ hmutated
  obtain rfl : c = 0 := by
    cases hchanges with
    | store hf => exact h.caches _ _ hf
  rw [show m.cache = 0 from h.caches j _ hm] at hseen
  have hlt : q < startedAt := by
    refine h.run.started_after_bump hchanges (lt_of_le_of_lt ?_ hfew) hseen
    exact List.Sublist.countP_le (List.drop_sublist _ _)
  omega

/-- What is recent for an invalidation that does not move stays so. -/
theorem RecentInv.frame (h : RecentInv key history s) (hquiet : Quiet cfg key history s i)
    (hstep : Steps cfg s i output s') (hm : s.threads[j]? = some (.mutation m))
    (hinvalidates : m.Invalidates key) : InvalidationInv key s' m := by
  have hinv := h.invalidations j m hm hinvalidates
  have hcalled : m.calledAt ≤ s.clock := by
    rw [h.run.clock]
    exact (h.run.threads j _ hm : MutationInv history m).called
  refine ⟨fun hphase => (hinv.group hphase).step hcalled ?_ hstep, fun hdeleted =>
    (hinv.entry hdeleted).step hcalled ?_ hstep,
    fun returnedAt answered hp j' g hg hkey hafter => ?_⟩
  · intro hrechecks
    rw [hquiet.not_between hrechecks hm hinvalidates] at hphase
    exact hinv.entry (hphase.resolve_left nofun)
  · rintro c createdAt startedAt rfl
    exact h.store hquiet.few hm hinvalidates hdeleted hstep.changes
  · have hdeleted : m.phase.deleted = true := by rw [hp]; rfl
    exact getRecent_step (hinv.group (.inr hdeleted)) (hinv.entry hdeleted) hcalled
      (fun j g hg => h.caches j _ hg) (hinv.gets returnedAt answered hp) hstep hg hkey hafter

theorem RecentInv.step {e : CacheEvent τ}
    (h : RecentInv key history s) (hquiet : Quiet cfg key history s i)
    (hstep : Steps cfg s i e.output s') : RecentInv key (history ++ [e]) s' := by
  refine ⟨h.run.step hstep, fun j t ht => ?_, fun j g hg => ?_, fun j m hm hinvalidates => ?_⟩
  · cases hstep.origin ht with
    | kept before => exact h.caches j t before
    | get | mutation => exact beq_iff_eq.mp hquiet.oneCache
    | created caller =>
      have hcache := h.caches _ _ caller
      exact hcache
    | getMoved before | flightMoved before | mutationMoved before =>
      have hcache := h.caches j _ before
      exact hcache
  · rw [hstep.clock]
    cases hstep.origin hg with
    | kept before => exact (h.called j g before).trans (Nat.lt_succ_self _)
    | getMoved before =>
      have hcalled := h.called j _ before
      exact hcalled.trans (Nat.lt_succ_self _)
    | get => exact Nat.lt_succ_self _
  · cases hstep.origin hm with
    | kept before => exact h.frame hquiet hstep before hinvalidates
    | mutation cache kind keys =>
      rcases checkMutation_phase (cfg cache) kind keys with ⟨err, hp⟩ | hp | ⟨hp, -⟩ <;>
        exact ⟨by simp [hp], by simp [hp],
          by simp [hp]⟩
    | @mutationMoved answer m state phase before move =>
      have hinvalidates : m.Invalidates key := hinvalidates
      have hframe := h.frame hquiet hstep before hinvalidates
      refine ⟨fun hphase => ?_, fun hdeleted => ?_,
        fun returnedAt answered hp j' g hg hkey hafter => ?_⟩
      · rcases move.group hinvalidates hphase with hbefore | hnone
        · exact hframe.group hbefore
        · intro index hgroup
          rw [show m.cache = 0 from h.caches j _ before, hgroup] at hnone
          cases hnone
      · rcases move.entry hinvalidates hdeleted with hbefore | hnone
        · exact hframe.entry hbefore
        · intro e' he'
          rw [hnone] at he'
          cases he'
      · -- the invalidation returns now, and the call of `Get` was made before
        obtain rfl := move.returned hinvalidates hp
        have hcalled : g.calledAt < s.clock := by
          cases hstep.origin hg with
          | kept before => exact h.called j' g before
          | getMoved thread =>
            rw [before] at thread
            cases thread
        omega

theorem recentInv_of_run (h : ((machine sf cfg).assuming (Quiet cfg key)).Run history s) :
    RecentInv key history s := by
  refine h.invariant (I := RecentInv key) ?_ ?_
  · rintro s rfl
    have hrun : (machine sf cfg).Run [] .new := .init rfl
    exact ⟨inv_of_run hrun, by simp [System.new], by simp [System.new], by simp [System.new]⟩
  · intro history s i hinv hmay
    exact hinv.step hmay.2 (exec_steps sf cfg s i)

/-- **No stale read.** In a quiet run, a call of `Get` that is made after an invalidation of its key
has returned does not return a value that was written before the invalidation was called, or whose
loader was started before. -/
theorem no_stale_read {key : String} {history : List (CacheEvent τ)} {s : System τ}
    (hrun : ((machine sf cfg).assuming (Quiet cfg key)).Run history s) {j k returnedAt : Nat}
    {m : Mutation τ} {answered : Answered} {g : GetCall τ} {value : τ} {source : Source}
    (hm : s.threads[j]? = some (.mutation m)) (hinvalidates : m.Invalidates key)
    (hreturned : m.phase = .returned returnedAt (.ok answered))
    (hg : s.threads[k]? = some (.get g)) (hkey : g.key = key) (hafter : returnedAt < g.calledAt)
    (hresult : g.phase = .returned (.ok (value, source))) : source.Recent m.calledAt := by
  have hrecent := ((recentInv_of_run hrun).invalidations j m hm hinvalidates).gets returnedAt
    answered hreturned k g hg hkey hafter
  rw [GetRecent, hresult] at hrecent
  exact hrecent

namespace Rechecked

open OneKey

/-- The thread takes so many steps. -/
def steps (index count : Nat) : List (Input (List UInt8)) := List.replicate count (.step index fine)

/-- A `Set`, an invalidation, and then a `Get` whose loader is started and whose value is stored. -/
def quietInputs : List (Input (List UInt8)) :=
  List.flatten [[.mutate 0 (.set [7]) ["k"]], steps 0 9, [.mutate 0 .invalidate ["k"]], steps 1 9,
    [.get 0 "k"], steps 2 2, steps 3 9, steps 2 1]

/-- A `Get` that misses; a `Set`; an invalidation that forgets the key; then the `Get` creates its
flight, which rechecks before the invalidation deletes the entry. A second `Get` is called after the
invalidation has returned, and joins. -/
def inputs : List (Input (List UInt8)) :=
  List.flatten [[.get 0 "k"], steps 0 1, [.mutate 0 (.set [7]) ["k"]], steps 1 9,
    [.mutate 0 .invalidate ["k"]],
    steps 2 6, steps 0 1, steps 3 2, steps 2 3, [.get 0 "k"], steps 4 2, steps 3 1, steps 4 1]

/-- One key, with nothing between a recheck and an invalidation. -/
abbrev quiet : Machine (System (List UInt8)) (Input (List UInt8)) Observation :=
  (machine .map config).assuming (Quiet config "k")

theorem evaluated : (quiet.Allows [] .new quietInputs ∧
      (quiet.final .new quietInputs).threads[1]? =
        some (.mutation ⟨0, .invalidate, ["k"], 10, none, .returned 19 (.ok (.count 1))⟩) ∧
      (quiet.final .new quietInputs).threads[2]? =
        some (.get ⟨0, "k", 20, .returned (.ok ([], ⟨none, some 26⟩))⟩)) ∧
    ((machine .map config).final .new inputs).threads[2]? =
      some (.mutation ⟨0, .invalidate, ["k"], 12, none, .returned 24 (.ok (.count 1))⟩) ∧
    ((machine .map config).final .new inputs).threads[4]? =
      some (.get ⟨0, "k", 25, .returned (.ok ([7], ⟨some 9, none⟩))⟩) := by
  decide +kernel

/-- The `Get` after the invalidation returns what its own loader has returned, not the value that
was set. -/
theorem recent_read : quiet.Run ([] ++ quiet.trace .new quietInputs)
    (quiet.final .new quietInputs) ∧ Source.Recent 10 ⟨none, some 26⟩ := by
  obtain ⟨⟨hallows, hm, hg⟩, -⟩ := evaluated
  have hrun := Machine.Run.extend (.init rfl) hallows
  exact ⟨hrun, no_stale_read hrun hm ⟨rfl, List.mem_cons_self⟩ rfl hg rfl (by decide) rfl⟩

/-- The second `Get` was called after the invalidation has returned; the value that it returns was
written before the invalidation was called. -/
theorem stale_read : ∃ (history : List (CacheEvent (List UInt8))) (s : System (List UInt8))
    (m : Mutation (List UInt8)) (g : GetCall (List UInt8)) (returnedAt : Nat) (answered : Answered)
    (value : List UInt8) (source : Source),
    (machine .map config).Run history s ∧ .mutation m ∈ s.threads ∧ .get g ∈ s.threads ∧
      m.cache = g.cache ∧ m.Invalidates g.key ∧ m.phase = .returned returnedAt (.ok answered) ∧
      returnedAt < g.calledAt ∧ g.phase = .returned (.ok (value, source)) ∧ ¬ source.Recent m.calledAt := by
  obtain ⟨-, hm, hg⟩ := evaluated
  have hrun := Machine.Run.extend (M := machine .map config) (.init rfl)
    (.of_forall (fun _ _ _ => trivial) [] System.new inputs)
  refine ⟨_, _, _, _, 24, .count 1, [7], ⟨some 9, none⟩, hrun, List.mem_of_getElem? hm,
    List.mem_of_getElem? hg, rfl, ⟨rfl, List.mem_cons_self⟩, rfl, by decide, rfl, fun hrecent => ?_⟩
  exact absurd (hrecent.1 9 rfl) (by decide)

end Rechecked

end Keelith.Cache
